import Schematic.Link.Symbols
import Schematic.Proofs.Package.Repository

/-!
# What a table of symbols holds

A table that files were imported into has all the names that they declare, and apart from
packages nothing else.  A file counts as imported under its name only once, so of two files
with one name the table has what the first declares.
-/

namespace Schematic

theorem foldlM_cons_eq_ok {α β ε : Type} {f : β → α → Except ε β} {a : α} {l : List α} {b b' : β}
    (h : (a :: l).foldlM f b = .ok b') : ∃ c, f b a = .ok c ∧ l.foldlM f c = .ok b' := by
  rw [List.foldlM_cons] at h
  exact bind_eq_ok h

theorem Sorted.mem_insert_names {a x : String} {l : List String} :
    x ∈ insert nameLt a l ↔ x = a ∨ x ∈ l := by
  refine ⟨mem_of_mem_insert, fun h => ?_⟩
  induction l with
  | nil => simpa [insert] using h
  | cons b rest ih =>
      rw [insert]
      split
      · exact List.mem_cons.mpr h
      · split
        · rcases h with rfl | h
          · exact List.mem_cons_of_mem b (ih (Or.inl rfl))
          · rcases List.mem_cons.mp h with rfl | h
            · exact List.mem_cons_self
            · exact List.mem_cons_of_mem b (ih (Or.inr h))
        · rename_i hab hba
          rw [nameLt, decide_eq_true_eq] at hab hba
          rcases h with rfl | h
          · have heq : x = b := String.le_antisymm (String.not_lt.mp hba) (String.not_lt.mp hab)
            rw [heq]
            exact List.mem_cons_self
          · exact h

theorem Sorted.pairwise_insert_names {a : String} {l : List String} (h : l.Pairwise (· < ·)) :
    (insert nameLt a l).Pairwise (· < ·) := by
  induction l with
  | nil => exact List.pairwise_singleton _ a
  | cons b rest ih =>
      obtain ⟨hb, hrest⟩ := List.pairwise_cons.mp h
      rw [insert]
      split
      · rename_i hab
        have hab := of_decide_eq_true hab
        refine List.pairwise_cons.mpr ⟨fun x hx => ?_, h⟩
        rcases List.mem_cons.mp hx with rfl | hx
        · exact hab
        · exact String.lt_trans hab (hb x hx)
      · split
        · rename_i hba
          refine List.pairwise_cons.mpr ⟨fun x hx => ?_, ih hrest⟩
          rcases mem_insert_names.mp hx with rfl | hx
          · exact of_decide_eq_true hba
          · exact hb x hx
        · exact h

namespace Symbols

variable {s s' : Symbols} {f : FileDescriptor}

/-- The table has these entries, as they are. -/
def Has (s : Symbols) (entries : List (String × Symbol)) : Prop :=
  ∀ entry ∈ entries, s.table.get? entry.1 = some entry.2

theorem has_append {a b : List (String × Symbol)} : s.Has (a ++ b) ↔ s.Has a ∧ s.Has b :=
  List.forall_mem_append

theorem Has.mono {a b : List (String × Symbol)} (h : s.Has b) (hsub : a ⊆ b) : s.Has a :=
  fun entry hentry => h entry (hsub hentry)

/-- The file is imported, with all that it declares. -/
structure Holds (s : Symbols) (f : FileDescriptor) : Prop where
  file : s.containsFile f.nameText = true
  names : s.Has (Declared.names f)

/-! ## One table and the next -/

/-- `new` has what `old` has, and else only `packages` and `entries`. -/
structure Grows (packages : List String) (entries : List (String × Symbol))
    (old new : Dict Symbol) : Prop where
  keeps : ∀ k symbol, old.get? k = some symbol → new.get? k = some symbol
  origin : ∀ k symbol, new.get? k = some symbol →
    old.get? k = some symbol ∨ (symbol.kind = .package ∧ k ∈ packages) ∨ (k, symbol) ∈ entries

namespace Grows

variable {packages : List String} {entries : List (String × Symbol)} {old mid new : Dict Symbol}

theorem refl (packages : List String) (table : Dict Symbol) : Grows packages [] table table :=
  ⟨fun _ _ h => h, fun _ _ h => Or.inl h⟩

theorem trans {others : List (String × Symbol)} (h : Grows packages entries old mid)
    (h' : Grows packages others mid new) : Grows packages (entries ++ others) old new where
  keeps k symbol hk := h'.keeps k symbol (h.keeps k symbol hk)
  origin k symbol hk := by
    rcases h'.origin k symbol hk with hk | hpackage | hmem
    · rcases h.origin k symbol hk with hk | hpackage | hmem
      · exact Or.inl hk
      · exact Or.inr (Or.inl hpackage)
      · exact Or.inr (Or.inr (List.mem_append_left _ hmem))
    · exact Or.inr (Or.inl hpackage)
    · exact Or.inr (Or.inr (List.mem_append_right _ hmem))

/-- A name is put where there was none. -/
theorem insert {name : String} {symbol : Symbol} (hnew : old.get? name = none)
    (h : (symbol.kind = .package ∧ name ∈ packages) ∨ (name, symbol) ∈ entries) :
    Grows packages entries old (old.insert name symbol) where
  keeps k known hk := by
    rw [Dict.get?_insert, if_neg]
    · exact hk
    · rintro rfl
      rw [hnew] at hk
      cases hk
  origin k known hk := by
    rw [Dict.get?_insert] at hk
    by_cases hkn : k = name
    · rw [if_pos hkn, Option.some.injEq] at hk
      rw [← hk, hkn]
      exact Or.inr h
    · rw [if_neg hkn] at hk
      exact Or.inl hk

end Grows

theorem grows_addPackage {packages : List String} {table table' : Dict Symbol} {name : String}
    (hname : name ∈ packages) (h : addPackage table name = .ok table') :
    Grows packages [] table table' := by
  unfold addPackage at h
  split at h
  · rename_i hnew
    cases h
    exact .insert hnew (Or.inl ⟨rfl, hname⟩)
  · split at h <;> cases h
    exact .refl packages _

theorem grows_addPackages {packages names : List String} {table table' : Dict Symbol}
    (hnames : names ⊆ packages) (h : names.foldlM addPackage table = .ok table') :
    Grows packages [] table table' := by
  induction names generalizing table with
  | nil =>
      cases h
      exact .refl packages _
  | cons name rest ih =>
      obtain ⟨hname, hrest⟩ := List.cons_subset.mp hnames
      obtain ⟨mid, hmid, h⟩ := foldlM_cons_eq_ok h
      exact (grows_addPackage hname hmid).trans (ih hrest h)

variable {packages : List String}

theorem grows_addName {table table' : Dict Symbol} {entry : String × Symbol}
    (h : addName table entry = .ok table') :
    Grows packages [entry] table table' ∧ table'.get? entry.1 = some entry.2 := by
  unfold addName at h
  split at h
  · rename_i hnew
    cases h
    refine ⟨.insert hnew (Or.inr List.mem_cons_self), ?_⟩
    rw [Dict.get?_insert, if_pos rfl]
  · cases h

theorem grows_addNames {entries : List (String × Symbol)} {table table' : Dict Symbol}
    (h : entries.foldlM addName table = .ok table') :
    Grows packages entries table table' ∧ ∀ entry ∈ entries, table'.get? entry.1 = some entry.2 := by
  induction entries generalizing table with
  | nil =>
      cases h
      exact ⟨.refl packages _, fun _ h => absurd h List.not_mem_nil⟩
  | cons entry rest ih =>
      obtain ⟨mid, hmid, h⟩ := foldlM_cons_eq_ok h
      obtain ⟨hgrows, hentry⟩ := grows_addName hmid
      obtain ⟨hgrows', hrest⟩ := ih h
      exact ⟨hgrows.trans hgrows', List.forall_mem_cons.mpr
        ⟨hgrows'.keeps _ _ hentry, hrest⟩⟩

theorem grows_addFile {table table' : Dict Symbol} (h : addFile table f = .ok table') :
    Grows (Declared.packages f) (Declared.names f) table table' ∧
      ∀ entry ∈ Declared.names f, table'.get? entry.1 = some entry.2 := by
  obtain ⟨mid, hmid, h⟩ := bind_eq_ok h
  obtain ⟨hgrows, hall⟩ := grows_addNames h
  exact ⟨(grows_addPackages (List.Subset.refl _) hmid).trans hgrows, hall⟩

/-! ## Files -/

theorem importFile_eq_ok (h : s.importFile f = .ok s') :
    Grows (Declared.packages f) (Declared.names f) s.table s'.table ∧
    (∀ k, s'.containsFile k = true ↔ k = f.nameText ∨ s.containsFile k = true) ∧
    (s.containsFile f.nameText = false → s'.Has (Declared.names f)) := by
  unfold importFile at h
  split at h
  · rename_i hin
    cases h
    refine ⟨⟨fun _ _ h => h, fun _ _ h => Or.inl h⟩, fun k => ⟨Or.inr, ?_⟩, fun hnew => ?_⟩
    · rintro (rfl | hk)
      · exact hin
      · exact hk
    · rw [hin] at hnew
      cases hnew
  · obtain ⟨table, htable, h⟩ := bind_eq_ok h
    cases h
    obtain ⟨hgrows, hall⟩ := grows_addFile htable
    refine ⟨hgrows, fun k => ?_, fun _ => hall⟩
    rw [containsFile, containsFile, List.contains_iff_mem, List.contains_iff_mem,
      Sorted.mem_insert_names]

/-- What a sequence of imports keeps, what it brings, and where all that is in the table
comes from. -/
theorem imports_eq_ok {fs : List FileDescriptor} (h : fs.foldlM importFile s = .ok s') :
    (∀ k symbol, s.table.get? k = some symbol → s'.table.get? k = some symbol) ∧
    (∀ k, s'.containsFile k = true ↔ k ∈ fs.map FileDescriptor.nameText ∨ s.containsFile k = true) ∧
    (∀ k symbol, s'.table.get? k = some symbol → s.table.get? k = some symbol ∨
      symbol.kind = .package ∨ ∃ f ∈ fs, (k, symbol) ∈ Declared.names f) := by
  induction fs generalizing s with
  | nil =>
      cases h
      exact ⟨fun _ _ h => h, fun k => by simp, fun _ _ h => Or.inl h⟩
  | cons f rest ih =>
      obtain ⟨mid, hmid, h⟩ := foldlM_cons_eq_ok h
      obtain ⟨hgrows, hfiles, -⟩ := importFile_eq_ok hmid
      obtain ⟨hkeeps', hfiles', horigin'⟩ := ih h
      refine ⟨fun k symbol hk => hkeeps' k symbol (hgrows.keeps k symbol hk), fun k => ?_,
        fun k symbol hk => ?_⟩
      · rw [hfiles', hfiles, List.map_cons, List.mem_cons]
        tauto
      · rcases horigin' k symbol hk with hk | hpackage | ⟨g, hg, hmem⟩
        · rcases hgrows.origin k symbol hk with hk | hpackage | hmem
          · exact Or.inl hk
          · exact Or.inr (Or.inl hpackage.1)
          · exact Or.inr (Or.inr ⟨f, List.mem_cons_self, hmem⟩)
        · exact Or.inr (Or.inl hpackage)
        · exact Or.inr (Or.inr ⟨g, List.mem_cons_of_mem f hg, hmem⟩)

/-- A file is held once it was imported, unless another came first under its name. -/
theorem holds_of_imports {fs : List FileDescriptor} (h : fs.foldlM importFile s = .ok s')
    (hf : f ∈ fs) (hnew : s.containsFile f.nameText = false)
    (hname : ∀ g ∈ fs, g.nameText = f.nameText → g = f) : s'.Holds f := by
  refine ⟨((imports_eq_ok h).2.1 _).mpr (Or.inl (List.mem_map_of_mem hf)), ?_⟩
  induction fs generalizing s with
  | nil => cases hf
  | cons g rest ih =>
      obtain ⟨mid, hmid, h⟩ := foldlM_cons_eq_ok h
      obtain ⟨-, hfiles, hall⟩ := importFile_eq_ok hmid
      by_cases hg : g.nameText = f.nameText
      · obtain rfl := hname g List.mem_cons_self hg
        intro entry hentry
        exact (imports_eq_ok h).1 _ _ (hall hnew entry hentry)
      · have hrest : f ∈ rest :=
          (List.mem_cons.mp hf).resolve_left fun heq => hg (by rw [heq])
        refine ih h hrest ?_ fun g' hg' => hname g' (List.mem_cons_of_mem g hg')
        rw [Bool.eq_false_iff]
        intro hin
        rcases (hfiles _).mp hin with heq | hin
        · exact hg heq.symm
        · rw [hnew] at hin
          cases hin

/-! ## Imports that succeed -/

/-- The table has none of the names, and under none of the packages anything else. -/
structure Room (table : Dict Symbol) (names packages : List String) : Prop where
  free : ∀ name ∈ names, table.get? name = none
  shared : ∀ package ∈ packages, ∀ symbol, table.get? package = some symbol → symbol.kind = .package

theorem exists_addPackages {names packages added : List String} (hadded : added ⊆ packages)
    (hapart : ∀ package ∈ packages, package ∉ names) {table : Dict Symbol}
    (h : Room table names packages) :
    ∃ table', added.foldlM addPackage table = .ok table' ∧ Room table' names packages := by
  induction added generalizing table with
  | nil => exact ⟨table, rfl, h⟩
  | cons package rest ih =>
      obtain ⟨hpackage, hrest⟩ := List.cons_subset.mp hadded
      have hstep : ∃ mid, addPackage table package = .ok mid ∧ Room mid names packages := by
        unfold addPackage
        split
        · refine ⟨_, rfl, fun name hname => ?_, fun other hother symbol hget => ?_⟩
          · have hne : name ≠ package := fun heq => hapart package hpackage (heq ▸ hname)
            rw [Dict.get?_insert, if_neg hne]
            exact h.free name hname
          · rw [Dict.get?_insert] at hget
            split at hget
            · cases hget
              rfl
            · exact h.shared other hother symbol hget
        · rename_i symbol hget
          rw [if_pos (h.shared package hpackage symbol hget)]
          exact ⟨table, rfl, h⟩
      obtain ⟨mid, hmid, hroom⟩ := hstep
      obtain ⟨table', htable, hroom'⟩ := ih hrest hroom
      refine ⟨table', ?_, hroom'⟩
      rw [List.foldlM_cons, hmid]
      exact htable

theorem exists_addNames {entries : List (String × Symbol)} {later packages : List String}
    (hnodup : (entries.map Prod.fst ++ later).Nodup)
    (hapart : ∀ package ∈ packages, package ∉ entries.map Prod.fst) {table : Dict Symbol}
    (h : Room table (entries.map Prod.fst ++ later) packages) :
    ∃ table', entries.foldlM addName table = .ok table' ∧ Room table' later packages := by
  induction entries generalizing table with
  | nil => exact ⟨table, rfl, h⟩
  | cons entry rest ih =>
      obtain ⟨hnew, hnodup⟩ := List.nodup_cons.mp hnodup
      have hfree := h.free entry.1 List.mem_cons_self
      have hmid : addName table entry = .ok (table.insert entry.1 entry.2) := by
        unfold addName
        rw [hfree]
      have hroom : Room (table.insert entry.1 entry.2) (rest.map Prod.fst ++ later) packages := by
        refine ⟨fun name hname => ?_, fun package hpackage symbol hget => ?_⟩
        · have hne : name ≠ entry.1 := fun heq => hnew (heq ▸ hname)
          rw [Dict.get?_insert, if_neg hne]
          exact h.free name (List.mem_cons_of_mem _ hname)
        · have hne : package ≠ entry.1 := fun heq =>
            hapart package hpackage (heq ▸ List.mem_cons_self)
          rw [Dict.get?_insert, if_neg hne] at hget
          exact h.shared package hpackage symbol hget
      obtain ⟨table', htable, hroom'⟩ := ih hnodup
        (fun package hpackage hmem => hapart package hpackage (List.mem_cons_of_mem _ hmem)) hroom
      refine ⟨table', ?_, hroom'⟩
      rw [List.foldlM_cons, hmid]
      exact htable

/-- Names that were added were not there before, and each was added once. -/
theorem free_of_addNames {entries : List (String × Symbol)} {table table' : Dict Symbol}
    (h : entries.foldlM addName table = .ok table') :
    (∀ name ∈ entries.map Prod.fst, table.get? name = none) ∧ (entries.map Prod.fst).Nodup := by
  induction entries generalizing table with
  | nil => exact ⟨fun _ h => absurd h List.not_mem_nil, List.nodup_nil⟩
  | cons entry rest ih =>
      obtain ⟨mid, hmid, h⟩ := foldlM_cons_eq_ok h
      obtain ⟨hgrows, hentry⟩ : Grows [] [entry] table mid ∧ mid.get? entry.1 = some entry.2 :=
        grows_addName hmid
      obtain ⟨hfree, hnodup⟩ := ih h
      have hhead : table.get? entry.1 = none := by
        unfold addName at hmid
        split at hmid
        · assumption
        · cases hmid
      constructor
      · intro name hname
        rcases List.mem_cons.mp hname with rfl | hname
        · exact hhead
        · cases hget : table.get? name with
          | none => rfl
          | some symbol =>
              have hmid := hgrows.keeps name symbol hget
              rw [hfree name hname] at hmid
              cases hmid
      · refine List.nodup_cons.mpr ⟨fun hmem => ?_, hnodup⟩
        rw [hfree entry.1 hmem] at hentry
        cases hentry

theorem nodup_of_importFile (h : s.importFile f = .ok s') (hnew : s.containsFile f.nameText = false) :
    ((Declared.names f).map Prod.fst).Nodup := by
  unfold importFile at h
  rw [if_neg (by rw [hnew]; exact Bool.false_ne_true)] at h
  obtain ⟨table, htable, -⟩ := bind_eq_ok h
  obtain ⟨mid, -, hnames⟩ := bind_eq_ok htable
  exact (free_of_addNames hnames).2

/-- Files can be imported if no name is declared twice and none is that of a package. -/
theorem exists_imports {fs : List FileDescriptor} {packages : List String}
    (hnodup : ((fs.flatMap Declared.names).map Prod.fst).Nodup)
    (hpackages : fs.flatMap Declared.packages ⊆ packages)
    (hapart : ∀ package ∈ packages, package ∉ (fs.flatMap Declared.names).map Prod.fst)
    (hroom : Room s.table ((fs.flatMap Declared.names).map Prod.fst) packages) :
    ∃ s', fs.foldlM importFile s = .ok s' := by
  induction fs generalizing s with
  | nil => exact ⟨s, rfl⟩
  | cons f rest ih =>
      rw [List.flatMap_cons, List.map_append] at hnodup hapart hroom
      rw [List.flatMap_cons, List.append_subset] at hpackages
      have hrest : ∀ package ∈ packages, package ∉ (rest.flatMap Declared.names).map Prod.fst :=
        fun package hpackage hmem => hapart package hpackage (List.mem_append_right _ hmem)
      have hstep : ∃ mid, s.importFile f = .ok mid ∧
          Room mid.table ((rest.flatMap Declared.names).map Prod.fst) packages := by
        unfold importFile
        split
        · exact ⟨s, rfl, fun name hname => hroom.free name (List.mem_append_right _ hname),
            hroom.shared⟩
        · obtain ⟨mid, hmid, hroom'⟩ := exists_addPackages hpackages.1 hapart hroom
          obtain ⟨table, htable, hroom''⟩ := exists_addNames hnodup
            (fun package hpackage hmem => hapart package hpackage (List.mem_append_left _ hmem)) hroom'
          refine ⟨⟨table, Sorted.insert Sorted.nameLt f.nameText s.files⟩, ?_, hroom''⟩
          simp only [addFile, hmid, Bind.bind, Except.bind, htable]
          rfl
      obtain ⟨mid, hmid, hroom'⟩ := hstep
      obtain ⟨s', hs'⟩ := ih (List.nodup_append.mp hnodup).2.1 hpackages.2 hrest hroom'
      refine ⟨s', ?_⟩
      rw [List.foldlM_cons, hmid]
      exact hs'

end Symbols
end Schematic
