import Schematic.Proofs.Package.Supply

/-!
# Where files come from

A file found under a name is one that a source of a local package is converted to, or one that a
dependency set or the catalog has, where the repository leaves the name to them.  Which files
these are does not depend on the calls made before, and their names are all known.
-/

namespace Schematic

open Relation BuildM

namespace Workspace

/-- The file can be found under the name. -/
def Finds (w : Workspace) (file : String) (f : FileDescriptor) : Prop :=
  f.nameText = file ∧ ((∃ name, w.Makes name f) ∨ w.outside? file = some f)

variable {w : Workspace} {name file : String} {f : FileDescriptor}

theorem mem_fileNames_of_contents {contents : PackageContents}
    (h : w.repository.contents name = .ok contents) {source : SourceFile}
    (hsource : source ∈ contents.sources) (hfile : file ∈ source.fileNames) :
    file ∈ w.fileNames := by
  have hentry := Repository.mem_entries_of_contents h
  have hvalue : .ok contents ∈ w.repository.packages.values := List.mem_map_of_mem hentry
  refine List.mem_append_left _ (List.mem_append_left _ (List.mem_flatMap.mpr ⟨_, hvalue, ?_⟩))
  exact List.mem_flatMap.mpr ⟨source, hsource, hfile⟩

theorem nameText_mem_of_converted {s : PackageSet} {source : SourceFile}
    (h : f ∈ w.converted s source) : f.nameText ∈ source.fileNames := by
  rw [← SourceFile.names_eq_fileNames (convertible_of_mem_converted h).convert]
  exact List.mem_map_of_mem h

theorem Makes.mem_fileNames (h : w.Makes name f) : f.nameText ∈ w.fileNames := by
  obtain ⟨p, hp, source, hsource, hf⟩ := h
  obtain ⟨-, contents, hcontents, hsources⟩ := Repository.sources_of_summarize hp
  exact mem_fileNames_of_contents hcontents (hsources ▸ hsource) (nameText_mem_of_converted hf)

theorem Finds.mem_fileNames (h : w.Finds file f) : file ∈ w.fileNames := by
  obtain ⟨hname, ⟨name, hmakes⟩ | houtside⟩ := h
  · exact hname ▸ hmakes.mem_fileNames
  · exact mem_fileNames_of_foreign (outside?_eq_some.mp houtside).2

/-- A file that can be found at any time can be found under its name. -/
theorem finds_of_mem_supply (hw : w.NamesFiles) (h : f ∈ w.supply) : w.Finds f.nameText f := by
  refine ⟨rfl, ?_⟩
  rcases List.mem_append.mp h with h | h
  · obtain ⟨name, -, hown⟩ := List.mem_flatMap.mp h
    exact Or.inl ⟨name, mem_ownFiles.mp hown⟩
  · obtain ⟨file, -, houtside⟩ := List.mem_filterMap.mp h
    rw [hw.nameText_of_foreign (outside?_eq_some.mp houtside).2]
    exact Or.inr houtside

end Workspace

/-! ## After every sequence of calls -/

/-- Packages are as they were summarized, files are such as can be found, and what is linked is one
of these. -/
structure PackageSet.Found (s : PackageSet) (w : Workspace) : Prop where
  summarized : s.Summarized w.repository
  files : ∀ file f, s.files.get? file = some f → w.Finds file f
  linked : ∀ file l, s.linked.get? file = some l →
    ∃ f, w.Finds file f ∧ ∃ symbols : Symbols, symbols.link f = .ok l

def foundFiles (w : Workspace) : Invariant where
  set s := s.Found w
  file := w.Finds
  package _ _ _ := True

namespace PackageSet

variable {w : Workspace} {s s' : PackageSet}

theorem found_empty (w : Workspace) : ({} : PackageSet).Found w where
  summarized := summarized_empty _
  files _ _ h := by cases h
  linked _ _ h := by cases h

/-- A change of the packages alone. -/
theorem Found.of_packages (h : s.Found w) (hsummarized : s'.Summarized w.repository)
    (hfiles : s'.files = s.files) (hlinked : s'.linked = s.linked) : s'.Found w where
  summarized := hsummarized
  files := hfiles ▸ h.files
  linked := hlinked ▸ h.linked

/-- A change of the files alone. -/
theorem Found.of_files (h : s.Found w) (hpackages : s'.packages = s.packages)
    (hlinked : s'.linked = s.linked)
    (hfiles : ∀ file f, s'.files.get? file = some f → s.files.get? file = some f ∨ w.Finds file f) :
    s'.Found w where
  summarized name q hq := h.summarized name q (hpackages ▸ hq)
  files file f hf := (hfiles file f hf).elim (h.files file f) id
  linked := hlinked ▸ h.linked

end PackageSet

theorem Workspace.NamesFiles.keeps_found {w : Workspace} (hw : w.NamesFiles) :
    w.Keeps (foundFiles w) where
  found hs hf := hs.files _ _ hf
  cached _ _ := trivial
  lasts _ _ := trivial
  load {s s'} hstep hs := by
    have hsummarized := hstep.summarized hs.summarized
    cases hstep with
    | summarize => exact hs.of_packages hsummarized rfl rfl
    | resolve =>
        exact hs.of_packages hsummarized (s.files_update _ _) (s.linked_update _ _)
  convert {s name p sources} hp hsub _ hs := by
    refine hs.of_files rfl rfl fun file f hf => ?_
    rw [get?_addFiles, Option.or_eq_some_iff] at hf
    rcases hf with hf | ⟨-, hf⟩
    · obtain ⟨hmem, hname⟩ := mem_of_lastNamed hf
      exact Or.inr ⟨hname, Or.inl ⟨name, makes_of_converted hs.summarized hp hsub hmem⟩⟩
    · exact Or.inl hf
  materialize {s name p} _ _ _ hs := by
    have hext := (Step.materialize (w := w) s name).extends
    exact hs.of_packages (hs.summarized.of_extends hext fun _ _ => PackageSet.exists_of_update)
      (s.files_update _ _) (s.linked_update _ _)
  foreign {s file package f} _ hpackage hf hs := by
    refine hs.of_files rfl rfl fun k g hg => ?_
    rw [Dict.get?_insert] at hg
    split at hg
    · rename_i hk
      cases hg
      have houtside : w.outside? file = some f := outside?_eq_some.mpr ⟨⟨package, hpackage⟩, hf⟩
      rw [hk]
      exact Or.inr ⟨hw.nameText_of_foreign hf, Or.inr houtside⟩
    · exact Or.inl hg
  declare _ _ _ _ hs := ⟨hs.summarized, hs.files, hs.linked⟩
  link {s file f symbols linked} hf _ _ _ hlink hs := by
    refine ⟨hs.summarized, hs.files, fun k l hl => ?_⟩
    rw [Dict.get?_insert] at hl
    split at hl
    · rename_i hk
      cases hl
      exact ⟨f, hk ▸ hf, symbols, hlink⟩
    · exact hs.linked k l hl
  build {s name p files dependencies} _ _ _ _ hs := by
    have hext := PackageSet.Extends.of_built s name { name, files, prose := p.prose, dependencies }
    exact hs.of_packages (hs.summarized.of_extends hext fun _ _ => PackageSet.exists_of_update)
      (s.files_update _ _) (s.linked_update _ _)
  linking hs := ⟨hs.summarized, hs.files, hs.linked⟩

theorem Calls.found {w : Workspace} (hw : w.NamesFiles) {s : PackageSet}
    (h : Calls (· = w) {} s) : s.Found w :=
  h.invariant (by rintro _ rfl; exact hw.keeps_found) (PackageSet.found_empty w)

end Schematic
