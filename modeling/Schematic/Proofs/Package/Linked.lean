import Schematic.Proofs.Package.Lifecycle
import Schematic.Proofs.Package.Repository

/-!
# Linked files and the packages given out

A file is linked only behind all that it imports, and what is linked stays.  So after
every sequence of calls the linked files have all their imports among them, and no
imports go round in a circle.  Each file stands under its own name, as long as dependency
sets and catalog give out files of the name asked for.  A package that was given out
consists of linked files, and so do the packages it needs.
-/

namespace Schematic

open Relation BuildM

/-! ## Linking a file changes neither its name nor its imports -/

theorem Linker.fileParts_frame {l : Linker} {f g : FileDescriptor} {used : List String}
    (h : l.fileParts f = .ok (g, used)) :
    g.name = f.name ∧ g.package = f.package ∧ g.dependencies = f.dependencies := by
  obtain ⟨_, -, h⟩ := bind_eq_ok h
  obtain ⟨_, -, h⟩ := bind_eq_ok h
  obtain ⟨_, -, h⟩ := bind_eq_ok h
  obtain ⟨_, -, h⟩ := bind_eq_ok h
  obtain ⟨_, -, h⟩ := bind_eq_ok h
  cases h
  exact ⟨rfl, rfl, rfl⟩

theorem Symbols.link_frame {symbols : Symbols} {f : FileDescriptor} {l : LinkedFile}
    (h : symbols.link f = .ok l) :
    l.descriptor.nameText = f.nameText ∧ l.descriptor.dependencies = f.dependencies := by
  unfold Symbols.link at h
  split at h
  · cases h
  · obtain ⟨⟨g, used⟩, hparts, h⟩ := bind_eq_ok h
    cases h
    obtain ⟨hname, -, hdeps⟩ := Linker.fileParts_frame hparts
    exact ⟨by rw [FileDescriptor.nameText, hname, FileDescriptor.nameText], hdeps⟩

namespace PackageSet

/-! ## The imports of linked files -/

/-- The linked file `a` imports `b`. -/
def Imports (s : PackageSet) (a b : String) : Prop :=
  ∃ l, s.linked.get? a = some l ∧ b ∈ l.descriptor.dependencies

structure ImportsLinked (s : PackageSet) : Prop where
  named : ∀ file l, s.linked.get? file = some l → l.descriptor.nameText = file
  closed : ∀ a b, s.Imports a b → s.linked.contains b = true
  acyclic : Acyclic s.Imports

theorem not_imports_empty (a b : String) : ¬ ({} : PackageSet).Imports a b := by
  rintro ⟨l, hl, -⟩
  cases hl

theorem importsLinked_empty : ({} : PackageSet).ImportsLinked where
  named _ _ hl := by cases hl
  closed a b hab := absurd hab (not_imports_empty a b)
  acyclic := .of_rank (fun _ => 0) fun a b hab => absurd hab (not_imports_empty a b)

theorem ImportsLinked.of_linked {s s' : PackageSet} (h : s.ImportsLinked)
    (hlinked : s'.linked = s.linked) : s'.ImportsLinked := by
  have himports : s'.Imports = s.Imports := by
    unfold Imports
    rw [hlinked]
  constructor
  · rw [hlinked]
    exact h.named
  · rw [himports, hlinked]
    exact h.closed
  · rw [himports]
    exact h.acyclic

/-- Linking one more file behind its imports. -/
theorem ImportsLinked.link {s s' : PackageSet} (h : s.ImportsLinked) {file : String}
    {l : LinkedFile} (hlinked : s'.linked = s.linked.insert file l) (hnew : s.linked.get? file = none)
    (hname : l.descriptor.nameText = file)
    (himports : ∀ d ∈ l.descriptor.dependencies, s.linked.contains d = true) :
    s'.ImportsLinked := by
  have hget : ∀ k, s'.linked.get? k = if k = file then some l else s.linked.get? k := by
    intro k
    rw [hlinked, Dict.get?_insert]
  have hcontains : ∀ k, s.linked.contains k = true → k ≠ file := by
    rintro k hk rfl
    rw [Dict.contains, hnew] at hk
    cases hk
  have hold : ∀ a b, s'.Imports a b → s.linked.contains b = true ∧ (s.Imports a b ∨ a = file) := by
    rintro a b ⟨l', hl', hb⟩
    rw [hget] at hl'
    by_cases ha : a = file
    · rw [if_pos ha, Option.some.injEq] at hl'
      exact ⟨himports b (hl' ▸ hb), Or.inr ha⟩
    · rw [if_neg ha] at hl'
      exact ⟨h.closed a b ⟨l', hl', hb⟩, Or.inl ⟨l', hl', hb⟩⟩
  refine ⟨fun k l' hl' => ?_, fun a b hab => ?_, ?_⟩
  · rw [hget] at hl'
    by_cases hk : k = file
    · rw [if_pos hk, Option.some.injEq] at hl'
      rw [← hl', hname, hk]
    · rw [if_neg hk] at hl'
      exact h.named k l' hl'
  · have hb := (hold a b hab).1
    rw [Dict.contains, hget, if_neg (hcontains b hb)]
    exact hb
  · -- The new imports start at the new file, and nothing linked before can import it.
    refine h.acyclic.of_source (x := file) (fun a b hab => (hold a b hab).2) fun a hab => ?_
    exact hcontains file (hold a file hab).1 rfl

/-! ## Packages given out -/

/-- A built package has the linked files of its sources, and its dependencies are built
packages of the same kind. -/
inductive Delivers (s : PackageSet) : BuiltPackage → Prop where
  | mk {name : String} {p : Package} {files : List LinkedFile} {prose : List ProseFile}
      {dependencies : List BuiltPackage} (hp : s.packages.get? name = some p)
      (hfiles : List.Forall₂ (fun file l => s.linked.get? file = some l)
        (p.sources.flatMap fun source => source.summary.produces) files)
      (hnames : p.dependencies = dependencies.map BuiltPackage.name)
      (hdeps : ∀ b ∈ dependencies, s.Delivers b) :
      s.Delivers { name, files, prose, dependencies }

theorem Delivers.later {s s' : PackageSet} (h : s.Extends s') {b : BuiltPackage}
    (hb : s.Delivers b) : s'.Delivers b := by
  induction hb with
  | mk hp hfiles hnames _ ih =>
      obtain ⟨q, hq, hpq⟩ := h.packages _ _ hp
      refine .mk hq ?_ (hpq.dependencies.trans hnames) ih
      rw [hpq.sources]
      exact hfiles.imp fun file l => h.linked file l

/-- `f` is the linked file of its name. -/
def HasFile (s : PackageSet) (f : FileDescriptor) : Prop :=
  ∃ l, s.linked.get? f.nameText = some l ∧ l.descriptor = f

end PackageSet

/-! ## After every sequence of calls -/

/-- Dependency sets and catalog give out files of the name asked for. -/
structure Workspace.NamesFiles (w : Workspace) : Prop where
  dependencies : ∀ d ∈ w.dependencies, ∀ file f, d.get? file = .ok (some f) → f.nameText = file
  catalog : ∀ file f, w.catalog.get? file = some f → f.nameText = file

theorem Workspace.NamesFiles.of_alone {w : Workspace} (hdependencies : w.dependencies = [])
    (hcatalog : w.catalog = {}) : w.NamesFiles where
  dependencies d hd := by
    rw [hdependencies] at hd
    cases hd
  catalog file f hf := by
    rw [hcatalog] at hf
    cases hf

theorem Workspace.nameText_of_dependencyFile {file : String} {f : FileDescriptor}
    {sets : List DependencySet}
    (hsets : ∀ d ∈ sets, ∀ file f, d.get? file = .ok (some f) → f.nameText = file)
    (h : dependencyFile file sets = .ok (some f)) : f.nameText = file := by
  induction sets with
  | nil => cases h
  | cons d rest ih =>
      obtain ⟨found, hd, h⟩ := bind_eq_ok h
      cases found with
      | some g =>
          cases h
          exact hsets d List.mem_cons_self file f hd
      | none => exact ih (fun d' h' => hsets d' (List.mem_cons_of_mem d h')) h

theorem Workspace.NamesFiles.nameText_of_foreign {w : Workspace} (hw : w.NamesFiles) {file : String}
    {f : FileDescriptor} (h : w.foreign? file = .ok (some f)) : f.nameText = file := by
  obtain ⟨found, hfound, h⟩ := bind_eq_ok h
  cases found with
  | some g =>
      cases h
      exact nameText_of_dependencyFile hw.dependencies hfound
  | none =>
      injection h with h
      exact hw.catalog file f h

/-- Files under their names, linked behind their imports, and put together to packages. -/
def linkedFiles : Invariant where
  set s := (∀ file f, s.files.get? file = some f → f.nameText = file) ∧ s.ImportsLinked ∧
    ∀ name b, s.built.get? name = some b → b.name = name ∧ s.Delivers b
  file name f := f.nameText = name
  package s name b := b.name = name ∧ s.Delivers b

theorem nameText_of_get?_addFiles {s : PackageSet} {files : List FileDescriptor}
    (h : ∀ file f, s.files.get? file = some f → f.nameText = file) {file : String}
    {f : FileDescriptor} (hf : (s.addFiles files).files.get? file = some f) : f.nameText = file := by
  rw [PackageSet.addFiles, Dict.get?_insertAll, Option.or_eq_some_iff] at hf
  rcases hf with hf | ⟨-, hf⟩
  · obtain ⟨before, after, heq, -⟩ := List.lookup_eq_some_iff.mp hf
    have hmem : (file, f) ∈ (files.map fun f => (f.nameText, f)).reverse := by
      rw [heq]
      simp
    obtain ⟨g, -, hg⟩ := List.mem_map.mp (List.mem_reverse.mp hmem)
    cases hg
    rfl
  · exact h file f hf

/-- A change that leaves the linked files and the cache alone. -/
theorem linkedFiles_of_same {s s' : PackageSet} (h : linkedFiles.set s) (hext : s.Extends s')
    (hfiles : ∀ file f, s'.files.get? file = some f → f.nameText = file)
    (hlinked : s'.linked = s.linked) (hbuilt : s'.built = s.built) : linkedFiles.set s' := by
  obtain ⟨-, himports, hdelivers⟩ := h
  refine ⟨hfiles, himports.of_linked hlinked, fun name b hb => ?_⟩
  rw [hbuilt] at hb
  exact ⟨(hdelivers name b hb).1, (hdelivers name b hb).2.later hext⟩

theorem Workspace.NamesFiles.keeps {w : Workspace} (hw : w.NamesFiles) : w.Keeps linkedFiles where
  found hs hf := hs.1 _ _ hf
  cached hs hb := hs.2.2 _ _ hb
  lasts hext hb := ⟨hb.1, hb.2.later hext⟩
  load {s s'} hstep hs := by
    have hext := hstep.extends
    cases hstep with
    | summarize hnew hlocal hp => exact linkedFiles_of_same hs hext hs.1 rfl rfl
    | resolve hp hstate hdeps =>
        refine linkedFiles_of_same hs hext ?_ (s.linked_update _ _) (s.built_update _ _)
        rw [s.files_update]
        exact hs.1
  convert {s _ _ _} _ _ _ hs :=
    linkedFiles_of_same hs (.of_same rfl rfl rfl)
      (fun _ _ hf => nameText_of_get?_addFiles hs.1 hf) rfl rfl
  materialize {s name p} _ _ _ hs := by
    refine linkedFiles_of_same hs (Step.materialize (w := w) s name).extends ?_
      (s.linked_update _ _) (s.built_update _ _)
    rw [s.files_update]
    exact hs.1
  foreign {s file _ f} _ _ hf hs := by
    refine linkedFiles_of_same hs (.of_same rfl rfl rfl) (fun k g hg => ?_) rfl rfl
    rw [Dict.get?_insert] at hg
    by_cases hk : k = file
    · rw [if_pos hk, Option.some.injEq] at hg
      rw [← hg, hk, hw.nameText_of_foreign hf]
    · rw [if_neg hk] at hg
      exact hs.1 k g hg
  declare _ _ _ _ hs := linkedFiles_of_same hs (.of_same rfl rfl rfl) hs.1 rfl rfl
  link {s file f symbols linked} hf hnew himports _ hlink hs := by
    obtain ⟨hname, hdeps⟩ := Symbols.link_frame hlink
    have hext := (Step.link (w := w) (s := { s with symbols }) hnew himports hlink).extends
    refine ⟨hs.1, hs.2.1.link rfl hnew (hname.trans hf) ?_, fun name b hb => ?_⟩
    · rw [hdeps]
      exact himports
    · exact ⟨(hs.2.2 name b hb).1, (hs.2.2 name b hb).2.later hext⟩
  build {s name p files dependencies} hp _ hdeps hfiles hs := by
    have hnew : s.Delivers { name, files, prose := p.prose, dependencies } := by
      refine .mk hp hfiles ?_ fun b hb => ?_
      · rw [← List.forall₂_eq_eq_eq, List.forall₂_map_right_iff]
        exact hdeps.imp fun _ _ hb => hb.1.symm
      · obtain ⟨d, -, hd⟩ := exists_of_forall₂ hdeps.flip hb
        exact hd.2
    have hext := PackageSet.Extends.of_built s name { name, files, prose := p.prose, dependencies }
    refine ⟨?_, hs.2.1.of_linked (s.linked_update _ _), fun k b hb => ?_⟩
    · show ∀ file f, (s.update name _).files.get? file = some f → f.nameText = file
      rw [s.files_update]
      exact hs.1
    · rw [Dict.get?_insert] at hb
      by_cases hk : k = name
      · rw [if_pos hk, Option.some.injEq] at hb
        exact ⟨by rw [← hb, hk], hb ▸ hnew.later hext⟩
      · rw [if_neg hk] at hb
        exact ⟨(hs.2.2 k b hb).1, (hs.2.2 k b hb).2.later hext⟩
  linking hs := linkedFiles_of_same hs (.of_same rfl rfl rfl) hs.1 rfl rfl

theorem linkedFiles_empty : linkedFiles.set {} := by
  refine ⟨?_, PackageSet.importsLinked_empty, ?_⟩
  · rintro _ _ ⟨⟩
  · rintro _ _ ⟨⟩

theorem Calls.linkedFiles {W : Workspace → Prop} (hW : ∀ w, W w → w.NamesFiles) {s : PackageSet}
    (h : Calls W {} s) : linkedFiles.set s :=
  h.invariant (fun w hw => (hW w hw).keeps) linkedFiles_empty

end Schematic
