import Schematic.Link.Symbols
import Mathlib.Data.List.Nodup

/-!
# Paths into a file

An element of a file is told by where it stands, since two elements may be equal.  What stands in a
file or in one of its elements stands in rows, each under a number, and a path gives at each step the
number of a row and a place in it.
-/

namespace Schematic

/-- An element of a file. -/
inductive FilePart where
  | message (m : MessageDescriptor)
  | field (f : FieldDescriptor)
  | oneof (o : OneofDescriptor)
  | enum (e : EnumDescriptor)
  | enumValue (v : EnumValueDescriptor)
  | service (s : ServiceDescriptor)
  | method (m : MethodDescriptor)
  | extension (f : FieldDescriptor)

namespace FilePart

def nameText : FilePart → String
  | .message m => m.nameText
  | .field f => f.nameText
  | .oneof o => o.nameText
  | .enum e => e.nameText
  | .enumValue v => v.nameText
  | .service s => s.nameText
  | .method m => m.nameText
  | .extension f => f.nameText

/-- What stands in an element, by the numbers of the descriptor format. -/
def rows : FilePart → List (Int × List FilePart)
  | .message m =>
    [(2, m.fields.map .field), (8, m.oneofs.map .oneof), (3, m.nested.map .message),
      (4, m.enums.map .enum), (6, m.extensions.map .extension)]
  | .enum e => [(2, e.values.map .enumValue)]
  | .service s => [(2, s.methods.map .method)]
  | _ => []

/-- What stands in a row, if there is a row of that number and a place of that index. -/
def item? (rows : List (Int × List FilePart)) (number index : Int) : Option FilePart :=
  (rows.lookup number).bind fun row => if 0 ≤ index then row[index.toNat]? else none

/-- The scope of what stands in an element.  The values of an enum stand beside it. -/
def inner (scope : String) : FilePart → String
  | .enum _ => scope
  | p => qualify scope p.nameText

/-- The element that a path leads to from one that stands in `scope`, and the scope that it stands
in. -/
def place? : (scope : String) → FilePart → List Int → Option (String × FilePart)
  | scope, p, [] => some (scope, p)
  | _, _, [_] => none
  | scope, p, number :: index :: rest =>
    (item? p.rows number index).bind fun q => place? (p.inner scope) q rest

end FilePart

namespace FileDescriptor

def rows (f : FileDescriptor) : List (Int × List FilePart) :=
  [(4, f.messages.map .message), (5, f.enums.map .enum), (7, f.extensions.map .extension),
    (6, f.services.map .service)]

/-- The element that a path leads to, and the scope that it stands in. -/
def place? (f : FileDescriptor) : List Int → Option (String × FilePart)
  | number :: index :: rest =>
    (FilePart.item? f.rows number index).bind fun p => p.place? f.packageText rest
  | _ => none

/-- The element that a path leads to. -/
def part? (f : FileDescriptor) (path : List Int) : Option FilePart :=
  (f.place? path).map Prod.snd

end FileDescriptor

theorem FilePart.item?_eq_some {rows : List (Int × List FilePart)} {number : Int}
    {row : List FilePart} (hrow : rows.lookup number = some row) {i : Nat} {p : FilePart}
    (hp : row[i]? = some p) :
    FilePart.item? rows number i = some p := by
  have hindex : (0 : Int) ≤ i := Int.natCast_nonneg i
  rw [item?, hrow, Option.bind_some, if_pos hindex, Int.toNat_natCast, hp]

theorem FilePart.item?_eq_some_iff {rows : List (Int × List FilePart)} {number index : Int}
    {p : FilePart} : FilePart.item? rows number index = some p ↔
      ∃ row, rows.lookup number = some row ∧ ∃ i : Nat, index = i ∧ row[i]? = some p := by
  constructor
  · intro h
    obtain ⟨row, hrow, h⟩ := Option.bind_eq_some_iff.mp h
    split at h
    · exact ⟨row, hrow, index.toNat, by omega, h⟩
    · cases h
  · rintro ⟨row, hrow, i, rfl, hp⟩
    exact item?_eq_some hrow hp

/-- Items side by side stand at the same place. -/
theorem rel_getElem?_of_forall₂ {α β : Type} {R : α → β → Prop} {as : List α} {bs : List β}
    (h : List.Forall₂ R as bs) (i : Nat) : Option.Rel R as[i]? bs[i]? := by
  induction h generalizing i with
  | nil => exact .none
  | cons hab _ ih =>
      cases i with
      | zero => exact .some hab
      | succ i => exact ih i

theorem exists_getElem?_of_forall₂ {α β : Type} {R : α → β → Prop} {as : List α} {bs : List β}
    (h : List.Forall₂ R as bs) {i : Nat} {b : β} (hb : bs[i]? = some b) :
    ∃ a, as[i]? = some a ∧ R a b := by
  have hrel := rel_getElem?_of_forall₂ h i
  rw [hb] at hrel
  generalize as[i]? = found at hrel
  cases hrel with
  | some hab => exact ⟨_, rfl, hab⟩

/-! ## Lists of paths -/

namespace Path

/-- The paths of a row: behind its number and the place of each item, the paths below that item. -/
def row (number : Int) (items : List (List (List Int))) : List (List Int) :=
  items.zipIdx.flatMap fun (paths, i) => paths.map fun path => number :: i :: path

theorem mem_row {number : Int} {items : List (List (List Int))} {path : List Int} :
    path ∈ row number items ↔
      ∃ (i : Nat) (paths : List (List Int)) (rest : List Int), items[i]? = some paths ∧
        path = number :: (i : Int) :: rest ∧ rest ∈ paths := by
  rw [row, List.mem_flatMap]
  constructor
  · rintro ⟨⟨paths, i⟩, hitem, hpath⟩
    obtain ⟨rest, hrest, rfl⟩ := List.mem_map.mp hpath
    exact ⟨i, paths, rest, List.mk_mem_zipIdx_iff_getElem?.mp hitem, rfl, hrest⟩
  · rintro ⟨i, paths, rest, hitem, rfl, hrest⟩
    exact ⟨(paths, i), List.mk_mem_zipIdx_iff_getElem?.mpr hitem, List.mem_map_of_mem hrest⟩

theorem nodup_row {number : Int} {items : List (List (List Int))}
    (h : ∀ paths ∈ items, paths.Nodup) : (row number items).Nodup := by
  refine List.nodup_flatMap.mpr ⟨fun item hitem => ?_, ?_⟩
  · obtain ⟨paths, i⟩ := item
    have hpaths := h paths (List.fst_mem_of_mem_zipIdx hitem)
    exact hpaths.map fun a b hab => (List.cons.inj (List.cons.inj hab).2).2
  · -- Items at different places have paths that part at the place.
    have hplaces : items.zipIdx.Pairwise fun a b => a.2 ≠ b.2 := by
      rw [← List.pairwise_map, List.zipIdx_map_snd]
      exact List.nodup_range'
    refine hplaces.imp fun {a b} hne => List.disjoint_left.mpr fun path ha hb => hne ?_
    obtain ⟨rest, -, rfl⟩ := List.mem_map.mp ha
    obtain ⟨rest', -, heq⟩ := List.mem_map.mp hb
    have hindex := (List.cons.inj (List.cons.inj heq).2).1
    omega

/-- Rows under different numbers have no path in common. -/
theorem nodup_rows {rows : List (Int × List (List (List Int)))}
    (hnumbers : (rows.map Prod.fst).Nodup) (hitems : ∀ r ∈ rows, ∀ paths ∈ r.2, paths.Nodup) :
    ([] :: rows.flatMap fun r => row r.1 r.2).Nodup := by
  refine List.nodup_cons.mpr ⟨fun hnil => ?_, List.nodup_flatMap.mpr ⟨fun r hr => ?_, ?_⟩⟩
  · obtain ⟨r, -, hr⟩ := List.mem_flatMap.mp hnil
    obtain ⟨i, paths, rest, -, heq, -⟩ := mem_row.mp hr
    cases heq
  · exact nodup_row (hitems r hr)
  · refine (List.pairwise_map.mp hnumbers).imp fun {a b} hne =>
      List.disjoint_left.mpr fun path ha hb => ?_
    obtain ⟨i, paths, rest, -, rfl, -⟩ := mem_row.mp ha
    obtain ⟨j, paths', rest', -, heq, -⟩ := mem_row.mp hb
    exact hne (List.cons.inj heq).1

/-- The same for rows of values, each of which has a path. -/
theorem nodup_rows_map {α : Type} (path : α → List Int) {table : List (Int × List (List α))}
    (hnumbers : (table.map Prod.fst).Nodup)
    (hitems : ∀ r ∈ table, ∀ item ∈ r.2, (item.map path).Nodup) :
    ([] :: table.flatMap fun r => row r.1 (r.2.map fun item => item.map path)).Nodup := by
  have hrows := @nodup_rows (table.map fun r => (r.1, r.2.map fun item => item.map path))
  rw [List.flatMap_map, List.map_map, List.forall_mem_map] at hrows
  refine hrows hnumbers fun r hr => ?_
  rw [List.forall_mem_map]
  exact hitems r hr

end Path
end Schematic
