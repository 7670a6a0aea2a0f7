import Schematic.Proofs.Descriptor.Path

/-!
# Declared names and their places

Every element of a file declares one name, and the names of a file are those of its elements.  Listed
with their paths, the names of equal elements in different places can be told apart.
-/

namespace Schematic

namespace FilePart

/-- What the table of symbols says of an element that a file declares. -/
def symbol (file : String) : FilePart → Symbol
  | .message _ => { kind := .message, file }
  | .field _ => { kind := .field, file }
  | .oneof _ => { kind := .oneof, file }
  | .enum _ => { kind := .enum, file }
  | .enumValue _ => { kind := .enumValue, file }
  | .service _ => { kind := .service, file }
  | .method _ => { kind := .method, file }
  | .extension f =>
    { kind := .extension, file, extendee := f.extendee.map (Text.withoutLeading '.') }

/-- The full name of an element in a scope, and its symbol. -/
def entry (file : String) (place : String × FilePart) : String × Symbol :=
  (qualify place.1 place.2.nameText, place.2.symbol file)

end FilePart

/-- The name that the element at a path declares, and its symbol. -/
def FileDescriptor.declares? (f : FileDescriptor) (path : List Int) : Option (String × Symbol) :=
  (f.place? path).map (FilePart.entry f.nameText)

/-! ## Values under paths -/

namespace Path

variable {α : Type}

/-- The values of a row, each with the path to it. -/
def tagRow (number : Int) (items : List (List (List Int × α))) : List (List Int × α) :=
  items.zipIdx.flatMap fun item => item.1.map fun x => (number :: (item.2 : Int) :: x.1, x.2)

def tagRows (table : List (Int × List (List (List Int × α)))) : List (List Int × α) :=
  table.flatMap fun r => tagRow r.1 r.2

theorem map_fst_tagRow (number : Int) (items : List (List (List Int × α))) :
    (tagRow number items).map Prod.fst = row number (items.map fun item => item.map Prod.fst) := by
  simp only [tagRow, row, List.map_flatMap, List.zipIdx_map, List.flatMap_map, List.map_map,
    Prod.map_fst, Prod.map_snd, id_eq]
  rfl

theorem map_snd_tagRow (number : Int) (items : List (List (List Int × α))) :
    (tagRow number items).map Prod.snd = items.flatMap fun item => item.map Prod.snd := by
  have hitem : ∀ x : List (List Int × α) × Nat,
      (x.1.map fun y => (number :: (x.2 : Int) :: y.1, y.2)).map Prod.snd = x.1.map Prod.snd := by
    intro x
    rw [List.map_map]
    rfl
  rw [tagRow, List.map_flatMap]
  simp only [hitem]
  rw [← List.flatMap_map Prod.fst fun item => List.map Prod.snd item, List.zipIdx_map_fst]

theorem mem_tagRow {number : Int} {items : List (List (List Int × α))} {path : List Int} {a : α} :
    (path, a) ∈ tagRow number items ↔ ∃ (i : Nat) (item : List (List Int × α)) (rest : List Int),
      items[i]? = some item ∧ path = number :: (i : Int) :: rest ∧ (rest, a) ∈ item := by
  rw [tagRow, List.mem_flatMap]
  constructor
  · rintro ⟨⟨item, i⟩, hitem, hmem⟩
    obtain ⟨⟨rest, b⟩, hrest, heq⟩ := List.mem_map.mp hmem
    obtain ⟨rfl, rfl⟩ := Prod.mk.inj heq
    exact ⟨i, item, rest, List.mk_mem_zipIdx_iff_getElem?.mp hitem, rfl, hrest⟩
  · rintro ⟨i, item, rest, hitem, rfl, hrest⟩
    exact ⟨(item, i), List.mk_mem_zipIdx_iff_getElem?.mpr hitem,
      List.mem_map.mpr ⟨(rest, a), hrest, rfl⟩⟩

/-- No path has two values, nor does the empty path have one. -/
theorem nodup_tagRows {table : List (Int × List (List (List Int × α)))}
    (hnumbers : (table.map Prod.fst).Nodup)
    (hitems : ∀ r ∈ table, ∀ item ∈ r.2, (item.map Prod.fst).Nodup) :
    ([] :: (tagRows table).map Prod.fst).Nodup := by
  have hpaths : (tagRows table).map Prod.fst =
      table.flatMap fun r => row r.1 (r.2.map fun item => item.map Prod.fst) := by
    rw [tagRows, List.map_flatMap]
    exact List.flatMap_congr fun r _ => map_fst_tagRow r.1 r.2
  rw [hpaths]
  exact nodup_rows_map Prod.fst hnumbers hitems

end Path

/-! ## Names under paths -/

/-- Names of elements with the paths that lead to them. -/
abbrev Places := List (List Int × (String × Symbol))

namespace FilePart

variable {file scope : String}

/-- The places are those of an element and of all that stands in it. -/
structure Lists (file scope : String) (p : FilePart) (places : Places) : Prop where
  nodup : (places.map Prod.fst).Nodup
  mem : ∀ path e, (path, e) ∈ places ↔ (p.place? scope path).map (entry file) = some e

/-- Rows of elements beside rows of their places. -/
def ListRows (file scope : String) (rows : List (Int × List FilePart))
    (table : List (Int × List Places)) : Prop :=
  List.Forall₂ (fun r t => r.1 = t.1 ∧ List.Forall₂ (Lists file scope) r.2 t.2) rows table

theorem ListRows.numbers {rows : List (Int × List FilePart)} {table : List (Int × List Places)}
    (h : ListRows file scope rows table) : rows.map Prod.fst = table.map Prod.fst := by
  rw [← List.forall₂_eq_eq_eq, List.forall₂_map_left_iff, List.forall₂_map_right_iff]
  exact h.imp fun r t hrt => hrt.1

theorem ListRows.nodup {rows : List (Int × List FilePart)} {table : List (Int × List Places)}
    (h : ListRows file scope rows table) (hnumbers : (rows.map Prod.fst).Nodup) :
    ([] :: (Path.tagRows table).map Prod.fst).Nodup := by
  refine Path.nodup_tagRows (h.numbers ▸ hnumbers) fun t ht item hitem => ?_
  obtain ⟨k, hk⟩ := List.getElem?_of_mem ht
  obtain ⟨r, -, -, hrow⟩ := exists_getElem?_of_forall₂ h hk
  obtain ⟨i, hi⟩ := List.getElem?_of_mem hitem
  obtain ⟨q, -, hq⟩ := exists_getElem?_of_forall₂ hrow hi
  exact hq.nodup

/-- The places in rows are those of the elements in them. -/
theorem ListRows.mem {rows : List (Int × List FilePart)} {table : List (Int × List Places)}
    (h : ListRows file scope rows table) (hnumbers : (rows.map Prod.fst).Nodup) {path : List Int}
    {e : String × Symbol} :
    (path, e) ∈ Path.tagRows table ↔ ∃ number index rest q, path = number :: index :: rest ∧
      item? rows number index = some q ∧ (q.place? scope rest).map (entry file) = some e := by
  rw [Path.tagRows, List.mem_flatMap]
  constructor
  · rintro ⟨t, ht, hmem⟩
    obtain ⟨i, item, rest, hitem, rfl, hrest⟩ := Path.mem_tagRow.mp hmem
    obtain ⟨k, hk⟩ := List.getElem?_of_mem ht
    obtain ⟨r, hr, hnumber, hrow⟩ := exists_getElem?_of_forall₂ h hk
    obtain ⟨q, hq, hlists⟩ := exists_getElem?_of_forall₂ hrow hitem
    refine ⟨t.1, i, rest, q, rfl, item?_eq_some ?_ hq, (hlists.mem rest e).mp hrest⟩
    rw [← hnumber]
    exact lookup_of_mem hnumbers (List.mem_of_getElem? hr)
  · rintro ⟨number, index, rest, q, rfl, hitem, hplace⟩
    obtain ⟨row, hrow, i, rfl, hq⟩ := item?_eq_some_iff.mp hitem
    obtain ⟨k, hk⟩ := List.getElem?_of_mem (mem_of_lookup hrow)
    obtain ⟨t, ht, hnumber, hitems⟩ := exists_getElem?_of_forall₂ h.flip hk
    obtain ⟨item, hitem, hlists⟩ := exists_getElem?_of_forall₂ hitems.flip hq
    refine ⟨t, List.mem_of_getElem? ht, Path.mem_tagRow.mpr ⟨i, item, rest, hitem, ?_, ?_⟩⟩
    · rw [← hnumber]
    · exact (hlists.mem rest e).mpr hplace
where
  lookup_of_mem {rows : List (Int × List FilePart)} {r : Int × List FilePart}
      (hnumbers : (rows.map Prod.fst).Nodup) (hr : r ∈ rows) : rows.lookup r.1 = some r.2 := by
    induction rows with
    | nil => cases hr
    | cons first rest ih =>
        obtain ⟨hfirst, hrest⟩ := List.nodup_cons.mp hnumbers
        rcases List.mem_cons.mp hr with rfl | hr
        · exact List.lookup_cons_self
        · have hne : r.1 ≠ first.1 := fun heq => hfirst (heq ▸ List.mem_map_of_mem hr)
          rw [List.lookup_cons, beq_false_of_ne hne]
          exact ih hrest hr
  mem_of_lookup {rows : List (Int × List FilePart)} {number : Int} {row : List FilePart}
      (h : rows.lookup number = some row) : (number, row) ∈ rows := by
    obtain ⟨before, after, rfl, -⟩ := List.lookup_eq_some_iff.mp h
    exact List.mem_append_right _ List.mem_cons_self

theorem nodup_rows (p : FilePart) : (p.rows.map Prod.fst).Nodup := by
  cases p <;> simp [rows]

/-- An element and what stands in it. -/
def places (file scope : String) (p : FilePart) (table : List (Int × List Places)) : Places :=
  ([], entry file (scope, p)) :: Path.tagRows table

theorem lists_places {p : FilePart} {table : List (Int × List Places)}
    (h : ListRows file (p.inner scope) p.rows table) :
    Lists file scope p (p.places file scope table) where
  nodup := h.nodup p.nodup_rows
  mem path e := by
    rw [places, List.mem_cons, h.mem p.nodup_rows]
    cases path with
    | nil => simp [place?, eq_comm]
    | cons number path =>
        cases path with
        | nil => simp [place?]
        | cons index rest =>
            rw [place?, Option.map_bind, Option.bind_eq_some_iff]
            constructor
            · rintro (heq | ⟨number', index', rest', q, heq, hitem, hplace⟩)
              · cases heq
              · cases heq
                exact ⟨q, hitem, hplace⟩
            · rintro ⟨q, hitem, hplace⟩
              exact Or.inr ⟨number, index, rest, q, rfl, hitem, hplace⟩

theorem lists_leaf {p : FilePart} (h : p.rows = []) : Lists file scope p (p.places file scope []) :=
  lists_places (by rw [h]; exact .nil)

theorem lists_leaves {α : Type} {part : α → FilePart} (h : ∀ a, (part a).rows = [])
    (items : List α) : List.Forall₂ (Lists file scope) (items.map part)
      (items.map fun a => (part a).places file scope []) := by
  rw [List.forall₂_map_left_iff, List.forall₂_map_right_iff]
  exact List.forall₂_same.mpr fun a _ => lists_leaf (h a)

end FilePart

/-! ## The places of a file -/

namespace Declared

variable {file scope : String}

open FilePart (Lists ListRows)

def enumPlaces (file scope : String) (e : EnumDescriptor) : Places :=
  (FilePart.enum e).places file scope
    [(2, e.values.map fun v => (FilePart.enumValue v).places file scope [])]

mutual

def messagePlaces (file scope : String) : MessageDescriptor → Places
  | m@{ name, fields, nested, enums, extensions, oneofs, .. } =>
    let inner := qualify scope (name.getD "")
    (FilePart.message m).places file scope
      [(2, fields.map fun f => (FilePart.field f).places file inner []),
        (8, oneofs.map fun o => (FilePart.oneof o).places file inner []),
        (3, messagesPlaces file inner nested), (4, enums.map (enumPlaces file inner)),
        (6, extensions.map fun f => (FilePart.extension f).places file inner [])]

def messagesPlaces (file scope : String) : List MessageDescriptor → List Places
  | [] => []
  | m :: rest => messagePlaces file scope m :: messagesPlaces file scope rest

end

def servicePlaces (file scope : String) (s : ServiceDescriptor) : Places :=
  (FilePart.service s).places file scope
    [(2, s.methods.map fun m => (FilePart.method m).places file (qualify scope s.nameText) [])]

/-- All names of a file with their places, in the order of `names`. -/
def places (f : FileDescriptor) : Places :=
  Path.tagRows
    [(4, messagesPlaces f.nameText f.packageText f.messages),
      (5, f.enums.map (enumPlaces f.nameText f.packageText)),
      (7, f.extensions.map fun e => (FilePart.extension e).places f.nameText f.packageText []),
      (6, f.services.map (servicePlaces f.nameText f.packageText))]

theorem lists_enum (e : EnumDescriptor) : Lists file scope (.enum e) (enumPlaces file scope e) :=
  FilePart.lists_places (.cons ⟨rfl, FilePart.lists_leaves (fun _ => rfl) e.values⟩ .nil)

theorem lists_enums (enums : List EnumDescriptor) :
    List.Forall₂ (Lists file scope) (enums.map .enum) (enums.map (enumPlaces file scope)) := by
  rw [List.forall₂_map_left_iff, List.forall₂_map_right_iff]
  exact List.forall₂_same.mpr fun e _ => lists_enum e

mutual

theorem lists_message (scope : String) : (m : MessageDescriptor) →
    Lists file scope (.message m) (messagePlaces file scope m)
  | { name, fields, nested, enums, extensionRanges, extensions, options, oneofs, reservedRanges,
      reservedNames } => by
      rw [messagePlaces]
      exact FilePart.lists_places <| .cons ⟨rfl, FilePart.lists_leaves (fun _ => rfl) fields⟩ <|
        .cons ⟨rfl, FilePart.lists_leaves (fun _ => rfl) oneofs⟩ <|
        .cons ⟨rfl, lists_messages (qualify scope (name.getD "")) nested⟩ <|
        .cons ⟨rfl, lists_enums enums⟩ <|
        .cons ⟨rfl, FilePart.lists_leaves (fun _ => rfl) extensions⟩ .nil

theorem lists_messages (scope : String) : (ms : List MessageDescriptor) →
    List.Forall₂ (Lists file scope) (ms.map .message) (messagesPlaces file scope ms)
  | [] => .nil
  | m :: rest => .cons (lists_message scope m) (lists_messages scope rest)

end

theorem lists_service (s : ServiceDescriptor) :
    Lists file scope (.service s) (servicePlaces file scope s) :=
  FilePart.lists_places (.cons ⟨rfl, FilePart.lists_leaves (fun _ => rfl) s.methods⟩ .nil)

theorem listRows_file (f : FileDescriptor) : ListRows f.nameText f.packageText f.rows
    [(4, messagesPlaces f.nameText f.packageText f.messages),
      (5, f.enums.map (enumPlaces f.nameText f.packageText)),
      (7, f.extensions.map fun e => (FilePart.extension e).places f.nameText f.packageText []),
      (6, f.services.map (servicePlaces f.nameText f.packageText))] := by
  refine .cons ⟨rfl, lists_messages f.packageText f.messages⟩ <| .cons ⟨rfl, lists_enums f.enums⟩ <|
    .cons ⟨rfl, FilePart.lists_leaves (fun _ => rfl) f.extensions⟩ <| .cons ⟨rfl, ?_⟩ .nil
  rw [List.forall₂_map_left_iff, List.forall₂_map_right_iff]
  exact List.forall₂_same.mpr fun s _ => lists_service s

theorem nodup_places (f : FileDescriptor) : ((places f).map Prod.fst).Nodup :=
  (List.nodup_cons.mp ((listRows_file f).nodup (by simp [FileDescriptor.rows]))).2

theorem mem_places {f : FileDescriptor} {path : List Int} {e : String × Symbol} :
    (path, e) ∈ places f ↔ f.declares? path = some e := by
  have hnumbers : (f.rows.map Prod.fst).Nodup := by simp [FileDescriptor.rows]
  rw [places, (listRows_file f).mem hnumbers, FileDescriptor.declares?]
  cases path with
  | nil => simp [FileDescriptor.place?]
  | cons number path =>
      cases path with
      | nil => simp [FileDescriptor.place?]
      | cons index rest =>
          rw [FileDescriptor.place?, Option.map_bind, Option.bind_eq_some_iff]
          constructor
          · rintro ⟨number', index', rest', q, heq, hitem, hplace⟩
            cases heq
            exact ⟨q, hitem, hplace⟩
          · rintro ⟨q, hitem, hplace⟩
            exact ⟨number, index, rest, q, rfl, hitem, hplace⟩

/-! ## The places have the names -/

theorem snd_places (p : FilePart) (table : List (Int × List Places)) :
    (p.places file scope table).map Prod.snd = FilePart.entry file (scope, p) ::
      table.flatMap fun r => r.2.flatMap fun item => item.map Prod.snd := by
  rw [FilePart.places, List.map_cons, Path.tagRows, List.map_flatMap]
  simp only [Path.map_snd_tagRow]

theorem snd_leaves {α : Type} (part : α → FilePart) (items : List α) :
    (items.map fun a => (part a).places file scope []).flatMap (fun item => item.map Prod.snd) =
      items.map fun a => FilePart.entry file (scope, part a) := by
  rw [List.flatMap_map]
  simp only [snd_places, List.flatMap_nil]
  exact List.map_eq_flatMap.symm

theorem snd_enum (e : EnumDescriptor) :
    (enumPlaces file scope e).map Prod.snd = Declared.enum file scope e := by
  rw [enumPlaces, snd_places, List.flatMap_singleton, snd_leaves]
  rfl

theorem snd_enums (enums : List EnumDescriptor) :
    (enums.map (enumPlaces file scope)).flatMap (fun item => item.map Prod.snd) =
      enums.flatMap (Declared.enum file scope) := by
  rw [List.flatMap_map]
  simp only [snd_enum]

mutual

theorem snd_message (scope : String) : (m : MessageDescriptor) →
    (messagePlaces file scope m).map Prod.snd = Declared.message file scope m
  | { name, fields, nested, enums, extensionRanges, extensions, options, oneofs, reservedRanges,
      reservedNames } => by
      rw [messagePlaces, snd_places, Declared.message]
      simp only [List.flatMap_cons, List.flatMap_nil, List.append_nil, snd_leaves, snd_enums,
        snd_messages (qualify scope (name.getD "")) nested, List.append_assoc, List.cons_append]
      rfl

theorem snd_messages (scope : String) : (ms : List MessageDescriptor) →
    (messagesPlaces file scope ms).flatMap (fun item => item.map Prod.snd) =
      Declared.messages file scope ms
  | [] => rfl
  | m :: rest => by
      rw [messagesPlaces, List.flatMap_cons, snd_message scope m, snd_messages scope rest,
        Declared.messages]

end

theorem snd_services (services : List ServiceDescriptor) :
    (services.map (servicePlaces file scope)).flatMap (fun item => item.map Prod.snd) =
      services.flatMap (Declared.service file scope) := by
  have hservice : ∀ s : ServiceDescriptor,
      (servicePlaces file scope s).map Prod.snd = Declared.service file scope s := by
    intro s
    rw [servicePlaces, snd_places, List.flatMap_singleton, snd_leaves]
    rfl
  rw [List.flatMap_map]
  simp only [hservice]

/-- Without their places these are the names of the file. -/
theorem map_snd_places (f : FileDescriptor) : (places f).map Prod.snd = names f := by
  rw [places, Path.tagRows, List.map_flatMap]
  simp only [Path.map_snd_tagRow, List.flatMap_cons, List.flatMap_nil, List.append_nil, snd_leaves,
    snd_enums, snd_messages, snd_services]
  rw [names]
  simp only [List.append_assoc]
  rfl

end Declared
end Schematic
