import Schematic.Proofs.Descriptor.Places
import Schematic.Proofs.Link.Symbols
import Schematic.Proofs.Text.Segments

/-!
# The table of symbols, whatever the order of imports

Files can be imported together if and only if no two of their elements have the same full name and no
element has the name of a package around one of the files.  The table then holds the names of all elements
and of all packages, and it is the same for every order in which the files are imported.
-/

namespace Schematic

/-- An invariant that follows the items of a list. -/
theorem foldlM_invariant {α β ε : Type} {f : β → α → Except ε β} (I : List α → β → Prop)
    {l done : List α} {b b' : β}
    (hstep : ∀ a ∈ l, ∀ done b b', I done b → f b a = .ok b' → I (done ++ [a]) b')
    (hstart : I done b) (h : l.foldlM f b = .ok b') : I (done ++ l) b' := by
  induction l generalizing done b with
  | nil =>
      cases h
      rw [List.append_nil]
      exact hstart
  | cons a rest ih =>
      obtain ⟨mid, hmid, h⟩ := foldlM_cons_eq_ok h
      obtain ⟨hfirst, hrest⟩ := List.forall_mem_cons.mp hstep
      rw [← List.singleton_append, ← List.append_assoc]
      exact ih hrest (hfirst done b mid hstart hmid) h

/-! ## Names that do not meet -/

/-- No two elements of the files have the same name, and none has the name of a package of a file. -/
structure Unambiguous (files : List FileDescriptor) : Prop where
  once : ∀ (i j : Nat) (f g : FileDescriptor) (path path' : List Int) (name : String)
    (symbol symbol' : Symbol), files[i]? = some f → files[j]? = some g →
    f.declares? path = some (name, symbol) → g.declares? path' = some (name, symbol') →
      i = j ∧ path = path'
  apart : ∀ f ∈ files, ∀ g ∈ files, ∀ (path : List Int) (name : String) (symbol : Symbol),
    f.declares? path = some (name, symbol) → ¬ g.HasPackage name

namespace Declared

theorem mem_names {f : FileDescriptor} {e : String × Symbol} :
    e ∈ names f ↔ ∃ path, f.declares? path = some e := by
  rw [← map_snd_places, List.mem_map]
  constructor
  · rintro ⟨⟨path, e⟩, hmem, rfl⟩
    exact ⟨path, mem_places.mp hmem⟩
  · rintro ⟨path, hpath⟩
    exact ⟨(path, e), mem_places.mpr hpath, rfl⟩

/-- Names are declared once if each name has one place in one file. -/
theorem nodup_names_iff {files : List FileDescriptor} :
    ((files.flatMap names).map Prod.fst).Nodup ↔
      ∀ (i j : Nat) (f g : FileDescriptor) (path path' : List Int) (name : String)
        (symbol symbol' : Symbol), files[i]? = some f → files[j]? = some g →
        f.declares? path = some (name, symbol) → g.declares? path' = some (name, symbol') →
          i = j ∧ path = path' := by
  -- The place of a file in the list is put before the paths in it.
  have hnodup : ((Path.tagRow 0 (files.map places)).map Prod.fst).Nodup := by
    rw [Path.map_fst_tagRow]
    refine Path.nodup_row ?_
    rw [List.forall_mem_map, List.forall_mem_map]
    exact fun f _ => nodup_places f
  have hnames : (files.flatMap names).map Prod.fst =
      (Path.tagRow 0 (files.map places)).map fun x => x.2.1 := by
    have hsnd : (Path.tagRow 0 (files.map places)).map Prod.snd = files.flatMap names := by
      rw [Path.map_snd_tagRow, List.flatMap_map]
      simp only [map_snd_places]
    rw [← hsnd, List.map_map]
    rfl
  have hmem : ∀ {i : Nat} {f : FileDescriptor} {path : List Int} {e : String × Symbol},
      files[i]? = some f → f.declares? path = some e →
        (0 :: (i : Int) :: path, e) ∈ Path.tagRow 0 (files.map places) := by
    intro i f path e hf hpath
    exact Path.mem_tagRow.mpr ⟨i, places f, path, by rw [List.getElem?_map, hf]; rfl, rfl,
      mem_places.mpr hpath⟩
  rw [hnames, List.nodup_map_iff_inj_on hnodup.of_map]
  constructor
  · intro hinj i j f g path path' name symbol symbol' hf hg hpath hpath'
    have heq := congrArg Prod.fst (hinj _ (hmem hf hpath) _ (hmem hg hpath') rfl)
    have hindex := (List.cons.inj (List.cons.inj heq).2).1
    exact ⟨by omega, (List.cons.inj (List.cons.inj heq).2).2⟩
  · rintro honce ⟨tag, name, symbol⟩ hx ⟨tag', name', symbol'⟩ hy heq
    obtain ⟨i, item, path, hitem, htag, hpath⟩ := Path.mem_tagRow.mp hx
    obtain ⟨j, item', path', hitem', htag', hpath'⟩ := Path.mem_tagRow.mp hy
    rw [List.getElem?_map] at hitem hitem'
    obtain ⟨f, hf, rfl⟩ := Option.map_eq_some_iff.mp hitem
    obtain ⟨g, hg, rfl⟩ := Option.map_eq_some_iff.mp hitem'
    obtain rfl : name = name' := heq
    obtain ⟨rfl, rfl⟩ := honce i j f g path path' name symbol symbol' hf hg (mem_places.mp hpath)
      (mem_places.mp hpath')
    exact List.inj_on_of_nodup_map hnodup hx hy (htag.trans htag'.symm)

theorem kind_of_mem_names {f : FileDescriptor} {e : String × Symbol} (h : e ∈ names f) :
    e.2.kind ≠ .package := by
  obtain ⟨path, hpath⟩ := mem_names.mp h
  obtain ⟨⟨scope, p⟩, -, rfl⟩ := Option.map_eq_some_iff.mp hpath
  cases p <;> exact SymbolKind.noConfusion

end Declared

theorem unambiguous_iff {files : List FileDescriptor} :
    Unambiguous files ↔ ((files.flatMap Declared.names).map Prod.fst).Nodup ∧
      ∀ package ∈ files.flatMap Declared.packages,
        package ∉ (files.flatMap Declared.names).map Prod.fst := by
  rw [Declared.nodup_names_iff]
  constructor
  · rintro ⟨honce, hapart⟩
    refine ⟨honce, fun package hpackage hname => ?_⟩
    obtain ⟨g, hg, hpackage⟩ := List.mem_flatMap.mp hpackage
    obtain ⟨⟨name, symbol⟩, hmem, rfl⟩ := List.mem_map.mp hname
    obtain ⟨f, hf, hmem⟩ := List.mem_flatMap.mp hmem
    obtain ⟨path, hpath⟩ := Declared.mem_names.mp hmem
    exact hapart f hf g hg path name symbol hpath (Declared.mem_packages.mp hpackage)
  · rintro ⟨honce, hapart⟩
    refine ⟨honce, fun f hf g hg path name symbol hpath hpackage => ?_⟩
    refine hapart name (List.mem_flatMap.mpr ⟨g, hg, Declared.mem_packages.mpr hpackage⟩) ?_
    exact List.mem_map.mpr ⟨(name, symbol),
      List.mem_flatMap.mpr ⟨f, hf, Declared.mem_names.mpr ⟨path, hpath⟩⟩, rfl⟩

/-! ## Tables that are filled -/

namespace Symbols

/-- The table holds these names and packages and nothing else. -/
structure Filled (entries : List (String × Symbol)) (packages : List String) (table : Dict Symbol) :
    Prop where
  ascending : table.Ascending
  get? : ∀ name symbol, table.get? name = some symbol ↔
    (name, symbol) ∈ entries ∨ symbol = { kind := .package } ∧ name ∈ packages
  nodup : (entries.map Prod.fst).Nodup
  kinds : ∀ e ∈ entries, e.2.kind ≠ .package

namespace Filled

variable {entries : List (String × Symbol)} {packages : List String} {table table' : Dict Symbol}

theorem empty : Filled [] [] {} :=
  ⟨List.Pairwise.nil, fun name symbol => by simp [Dict.get?], List.nodup_nil, List.forall_mem_nil _⟩

theorem addPackage (h : Filled entries packages table) {package : String}
    (hadd : Symbols.addPackage table package = .ok table') :
    Filled entries (packages ++ [package]) table' := by
  unfold Symbols.addPackage at hadd
  split at hadd
  · rename_i hnone
    cases hadd
    refine ⟨Dict.ascending_insert h.ascending _ _, fun name symbol => ?_, h.nodup, h.kinds⟩
    rw [Dict.get?_insert, List.mem_append, List.mem_singleton]
    by_cases hname : name = package
    · -- Nothing was there under the name of the package.
      have hentry : (name, symbol) ∉ entries := fun hmem => by
        have hget := (h.get? name symbol).mpr (Or.inl hmem)
        rw [hname, hnone] at hget
        cases hget
      simp [hname ▸ hentry, hname, eq_comm]
    · rw [if_neg hname, h.get?]
      simp [hname]
  · rename_i known hknown
    split at hadd
    · rename_i hkind
      cases hadd
      have hpackage : package ∈ packages := by
        rcases (h.get? package known).mp hknown with hmem | ⟨-, hmem⟩
        · exact absurd hkind (h.kinds _ hmem)
        · exact hmem
      refine ⟨h.ascending, fun name symbol => ?_, h.nodup, h.kinds⟩
      rw [h.get?, List.mem_append, List.mem_singleton]
      have hsame : name ∈ packages ∨ name = package ↔ name ∈ packages :=
        or_iff_left_of_imp fun hname => hname ▸ hpackage
      rw [hsame]
    · cases hadd

theorem addName (h : Filled entries packages table) {e : String × Symbol}
    (hkind : e.2.kind ≠ .package) (hadd : Symbols.addName table e = .ok table') :
    Filled (entries ++ [e]) packages table' := by
  unfold Symbols.addName at hadd
  split at hadd
  · rename_i hnone
    cases hadd
    have hnew : ∀ symbol, (e.1, symbol) ∉ entries := fun symbol hmem => by
      have hget := (h.get? e.1 symbol).mpr (Or.inl hmem)
      rw [hnone] at hget
      cases hget
    have hpackage : e.1 ∉ packages := fun hmem => by
      have hget := (h.get? e.1 _).mpr (Or.inr ⟨rfl, hmem⟩)
      rw [hnone] at hget
      cases hget
    refine ⟨Dict.ascending_insert h.ascending _ _, fun name symbol => ?_, ?_, ?_⟩
    · rw [Dict.get?_insert, List.mem_append, List.mem_singleton, Prod.ext_iff]
      by_cases hname : name = e.1
      · simp [hname, hnew, hpackage, eq_comm]
      · rw [if_neg hname, h.get?]
        simp [hname]
    · rw [List.map_append, List.nodup_append]
      refine ⟨h.nodup, List.nodup_singleton _, fun a ha b hb heq => ?_⟩
      obtain ⟨⟨name, symbol⟩, hmem, rfl⟩ := List.mem_map.mp ha
      rw [List.mem_singleton.mp hb] at heq
      exact hnew symbol (heq ▸ hmem)
    · exact List.forall_mem_append.mpr ⟨h.kinds, List.forall_mem_singleton.mpr hkind⟩
  · cases hadd

theorem addFile (h : Filled entries packages table) {f : FileDescriptor}
    (hadd : Symbols.addFile table f = .ok table') :
    Filled (entries ++ Declared.names f) (packages ++ Declared.packages f) table' := by
  obtain ⟨mid, hmid, hadd⟩ := bind_eq_ok hadd
  have hpackages : Filled entries (packages ++ Declared.packages f) mid :=
    foldlM_invariant (fun done table => Filled entries done table)
      (fun _ _ _ _ _ hfilled hadd => hfilled.addPackage hadd) h hmid
  exact foldlM_invariant (fun done table => Filled done (packages ++ Declared.packages f) table)
    (fun _ he _ _ _ hfilled hadd => hfilled.addName (Declared.kind_of_mem_names he) hadd) hpackages hadd

theorem apart (h : Filled entries packages table) :
    ∀ package ∈ packages, package ∉ entries.map Prod.fst := by
  intro package hpackage hname
  obtain ⟨⟨name, symbol⟩, hmem, rfl⟩ := List.mem_map.mp hname
  have hentry := (h.get? name symbol).mpr (Or.inl hmem)
  have hget := (h.get? name _).mpr (Or.inr ⟨rfl, hpackage⟩)
  have hsymbol := Option.some.inj (hentry.symm.trans hget)
  exact h.kinds _ hmem (congrArg Symbol.kind hsymbol)

end Filled

/-! ## Imports in any order -/

/-- What the table and the list of files are after imports of files with different names. -/
structure Imported (files : List FileDescriptor) (s : Symbols) : Prop where
  filled : Filled (files.flatMap Declared.names) (files.flatMap Declared.packages) s.table
  ascending : s.files.Pairwise (· < ·)
  files : ∀ name, name ∈ s.files ↔ name ∈ files.map FileDescriptor.nameText

theorem Imported.importFile {done : List FileDescriptor} {f : FileDescriptor} {s s' : Symbols}
    (h : Imported done s) (hnew : f.nameText ∉ done.map FileDescriptor.nameText)
    (himport : s.importFile f = .ok s') : Imported (done ++ [f]) s' := by
  have hcontains : s.containsFile f.nameText = false := by
    rw [Bool.eq_false_iff, containsFile, ne_eq, List.contains_iff_mem, h.files]
    exact hnew
  rw [Symbols.importFile, hcontains, if_neg Bool.false_ne_true] at himport
  obtain ⟨table, htable, himport⟩ := bind_eq_ok himport
  cases himport
  refine ⟨?_, Sorted.pairwise_insert_names h.ascending, fun name => ?_⟩
  · rw [List.flatMap_append, List.flatMap_append, List.flatMap_singleton, List.flatMap_singleton]
    exact h.filled.addFile htable
  · rw [Sorted.mem_insert_names, h.files, List.map_append, List.mem_append, or_comm]
    simp

theorem imported_of_imports {files : List FileDescriptor} {s : Symbols}
    (hnames : (files.map FileDescriptor.nameText).Nodup)
    (h : files.foldlM Symbols.importFile {} = .ok s) : Imported files s := by
  have hempty : Imported [] {} := ⟨Filled.empty, List.Pairwise.nil, fun name => by simp⟩
  have hstep : ∀ f ∈ files, ∀ (done : List FileDescriptor) (s s' : Symbols),
      ((done.map FileDescriptor.nameText).Nodup → Imported done s) → s.importFile f = .ok s' →
        ((done ++ [f]).map FileDescriptor.nameText).Nodup → Imported (done ++ [f]) s' := by
    intro f _ done s s' hdone himport hnodup
    rw [List.map_append, List.nodup_append] at hnodup
    refine (hdone hnodup.1).importFile (fun hmem => ?_) himport
    exact hnodup.2.2 _ hmem _ (List.mem_singleton.mpr rfl) rfl
  exact @foldlM_invariant _ _ _ _
    (fun done s => (done.map FileDescriptor.nameText).Nodup → Imported done s) files [] {} s hstep
    (fun _ => hempty) h hnames

/-- The files decide the table, not their order. -/
theorem Imported.unique {files order : List FileDescriptor} {s s' : Symbols} (h : Imported files s)
    (h' : Imported order s') (hperm : order.Perm files) : s = s' := by
  have htable : s.table = s'.table := by
    refine h.filled.ascending.ext h'.filled.ascending fun name => Option.ext fun symbol => ?_
    rw [h.filled.get?, h'.filled.get?, (hperm.flatMap_right _).mem_iff,
      (hperm.flatMap_right _).mem_iff]
  have hfiles : s.files = s'.files := by
    have hmem : ∀ name, name ∈ s.files ↔ name ∈ s'.files := by
      intro name
      rw [h.files, h'.files, (hperm.map _).mem_iff]
    exact Sorted.eq_of_mem_iff (fun _ _ hab hba => String.lt_irrefl _ (String.lt_trans hab hba))
      h.ascending h'.ascending hmem
  obtain ⟨table, names⟩ := s
  obtain ⟨table', names'⟩ := s'
  exact congr (congrArg Symbols.mk htable) hfiles

theorem exists_imports_iff {files : List FileDescriptor}
    (hnames : (files.map FileDescriptor.nameText).Nodup) :
    (∃ s, files.foldlM importFile {} = .ok s) ↔ Unambiguous files := by
  rw [unambiguous_iff]
  constructor
  · rintro ⟨s, hs⟩
    have hfilled := (imported_of_imports hnames hs).filled
    exact ⟨hfilled.nodup, hfilled.apart⟩
  · rintro ⟨hnodup, hapart⟩
    refine exists_imports hnodup (List.Subset.refl _) hapart ⟨fun _ _ => rfl, ?_⟩
    intro package _ symbol hget
    cases hget

theorem unambiguous_perm {files order : List FileDescriptor} (hperm : order.Perm files) :
    Unambiguous order ↔ Unambiguous files := by
  rw [unambiguous_iff, unambiguous_iff, ((hperm.flatMap_right _).map _).nodup_iff]
  simp only [(hperm.flatMap_right Declared.packages).mem_iff,
    ((hperm.flatMap_right Declared.names).map Prod.fst).mem_iff]

/-- Files with different names can be imported if and only if their names do not meet, in every order or
in none, and every order gives one table: that of all names and packages. -/
theorem imports_any_order {files : List FileDescriptor}
    (hnames : (files.map FileDescriptor.nameText).Nodup) :
    (∀ order : List FileDescriptor, order.Perm files →
      ((∃ s, order.foldlM importFile {} = .ok s) ↔ Unambiguous files)) ∧
    (Unambiguous files → ∃ s : Symbols,
      (∀ order : List FileDescriptor, order.Perm files → order.foldlM importFile {} = .ok s) ∧
      s.table.keys.Nodup ∧
      ∀ name symbol, (name, symbol) ∈ s.table.entries ↔
        (∃ f ∈ files, ∃ path, f.declares? path = some (name, symbol)) ∨
          symbol = { kind := .package } ∧ ∃ f ∈ files, f.HasPackage name) := by
  have hiff : ∀ order : List FileDescriptor, order.Perm files →
      ((∃ s, order.foldlM importFile {} = .ok s) ↔ Unambiguous files) := by
    intro order hperm
    rw [exists_imports_iff ((hperm.map _).nodup_iff.mpr hnames), unambiguous_perm hperm]
  refine ⟨hiff, fun hclear => ?_⟩
  obtain ⟨s, hs⟩ := (hiff files (List.Perm.refl _)).mpr hclear
  have himported := imported_of_imports hnames hs
  refine ⟨s, fun order hperm => ?_, himported.filled.ascending.nodup, fun name symbol => ?_⟩
  · obtain ⟨s', hs'⟩ := (hiff order hperm).mpr hclear
    rw [hs', himported.unique (imported_of_imports ((hperm.map _).nodup_iff.mpr hnames) hs') hperm]
  · rw [himported.filled.ascending.mem_entries_iff, himported.filled.get?]
    simp only [List.mem_flatMap, Declared.mem_names, Declared.mem_packages]

/-- Two files, one in a package inside that of the other. -/
def boxes : List FileDescriptor :=
  [{ name := some "a.proto", package := some "a.v1"
     messages :=
      [{ name := some "Box", fields := [{ name := some "size" }], oneofs := [{ name := some "kind" }]
         nested := [{ name := some "Lid" }]
         enums := [{ name := some "Size", values := [{ name := some "SIZE_UNSPECIFIED" }] }] }]
     extensions := [{ name := some "note", extendee := some ".google.protobuf.FieldOptions" }]
     services := [{ name := some "Boxes", methods := [{ name := some "Open" }] }] },
   { name := some "b.proto", package := some "a.v1.b", messages := [{ name := some "Box" }] }]

theorem imports_any_order_boxes : (boxes.map FileDescriptor.nameText).Nodup ∧ Unambiguous boxes ∧
    ∃ s : Symbols, (∀ order : List FileDescriptor, order.Perm boxes →
        order.foldlM importFile {} = .ok s) ∧
      s.table.size = 13 ∧ s.lookup "a.v1.b" = some { kind := .package } ∧
      s.lookup "a.v1.Box.SIZE_UNSPECIFIED" = some { kind := .enumValue, file := "a.proto" } ∧
      s.lookup "a.v1.note" = some
        { kind := .extension, file := "a.proto", extendee := some "google.protobuf.FieldOptions" } := by
  have hnames : (boxes.map FileDescriptor.nameText).Nodup := by decide +kernel
  have hclear : Unambiguous boxes := unambiguous_iff.mpr (by decide +kernel)
  obtain ⟨s, hs, -⟩ := (imports_any_order hnames).2 hclear
  have hview : (boxes.foldlM importFile {}).toOption.map (fun s => (s.table.size, s.lookup "a.v1.b",
      s.lookup "a.v1.Box.SIZE_UNSPECIFIED", s.lookup "a.v1.note")) =
      some (13, some { kind := .package }, some { kind := .enumValue, file := "a.proto" },
        some { kind := .extension, file := "a.proto",
               extendee := some "google.protobuf.FieldOptions" }) := by
    decide +kernel
  rw [hs boxes (List.Perm.refl _)] at hview
  obtain ⟨hsize, hpackage, hvalue, hnote⟩ : _ ∧ _ ∧ _ ∧ _ := by
    simpa [Except.toOption] using hview
  exact ⟨hnames, hclear, s, hs, hsize, hpackage, hvalue, hnote⟩

end Symbols
end Schematic
