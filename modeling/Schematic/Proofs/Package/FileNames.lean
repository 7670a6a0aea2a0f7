import Schematic.Proofs.FileName
import Schematic.Proofs.Package.Found

/-!
# Files of different documents

A document is converted to files whose names tell its path.  So the files of two documents have different
names, and when one is converted, what was found before under a name of the other stays as it is.  After
any calls, a file found under a name of a document comes from that very document, if it comes from a
document at all.  The only names to which this does not apply are those of main files of documents that are
named like `bar.p.j5s`.
-/

namespace Schematic

open Relation BuildM

/-! ## Names of converted files -/

theorem Document.produces_sublist (d : Document) (nodes : List RootNode) :
    (d.produces nodes).Sublist (FileName.files d.path) := by
  unfold produces FileName.files
  split <;> split <;> simp

/-- A document is converted to files with some of its names, in order. -/
theorem Document.names_sublist {d : Document} {r : Resolver} {files : List FileDescriptor}
    (h : d.convert r = .ok files) :
    (files.map FileDescriptor.nameText).Sublist (FileName.files d.path) := by
  obtain ⟨-, rfl⟩ := Document.convert_eq_ok h
  have hnames := d.names_drafts (d.conversion r) d.nodes
  rw [List.map_map]
  exact hnames ▸ d.produces_sublist d.nodes

/-! ## One document after another -/

namespace Workspace

variable {w : Workspace} {s : PackageSet} {source : SourceFile} {d : Document}

theorem lastNamed_of_mem {files : List FileDescriptor} (hnodup : (files.map FileDescriptor.nameText).Nodup)
    {f : FileDescriptor} (hf : f ∈ files) : lastNamed files f.nameText = some f := by
  cases hlast : lastNamed files f.nameText with
  | none =>
      have hne := List.lookup_eq_none_iff.mp hlast (f.nameText, f)
        (List.mem_reverse.mpr (List.mem_map_of_mem hf))
      exact absurd rfl (bne_iff_ne.mp hne)
  | some g =>
      obtain ⟨hg, hname⟩ := mem_of_lastNamed hlast
      rw [List.inj_on_of_nodup_map hnodup hg hf hname]

theorem lastNamed_of_not_mem {files : List FileDescriptor} {file : String}
    (h : file ∉ files.map FileDescriptor.nameText) : lastNamed files file = none := by
  cases hlast : lastNamed files file with
  | none => rfl
  | some g =>
      obtain ⟨hg, rfl⟩ := mem_of_lastNamed hlast
      exact absurd (List.mem_map_of_mem hg) h

theorem names_converted_sublist (hbody : source.body = .document d) :
    ((w.converted s source).map FileDescriptor.nameText).Sublist (FileName.files d.path) := by
  cases hconvert : source.convert (w.resolveType s) with
  | error e =>
      rw [converted, hconvert]
      exact List.nil_sublist _
  | ok files =>
      rw [converted, hconvert]
      rw [SourceFile.convert, hbody] at hconvert
      exact Document.names_sublist hconvert

/-- The files of a document are found under their names. -/
theorem get?_addFiles_converted (hbody : source.body = .document d) {f : FileDescriptor}
    (hf : f ∈ w.converted s source) :
    (s.addFiles (w.converted s source)).files.get? f.nameText = some f := by
  have hnodup := (names_converted_sublist (w := w) (s := s) hbody).nodup (FileName.nodup_files d.path)
  rw [get?_addFiles, lastNamed_of_mem hnodup hf, Option.some_or]

/-- Under the names of another document nothing changes. -/
theorem get?_addFiles_other (hbody : source.body = .document d) (hsource : FileName.IsSource d.path)
    {path file : String} (hother : FileName.IsSource path) (hne : path ≠ d.path)
    (hfile : file ∈ FileName.files path) (hplain : ¬ FileName.Disguised d.path file)
    (hplain' : ¬ FileName.Disguised path file) :
    (s.addFiles (w.converted s source)).files.get? file = s.files.get? file := by
  have hnot : file ∉ (w.converted s source).map FileDescriptor.nameText := by
    intro hmem
    have hown := (names_converted_sublist hbody).subset hmem
    exact hne (FileName.eq_of_mem_files hother hsource hfile hown hplain' hplain)
  rw [get?_addFiles, lastNamed_of_not_mem hnot, Option.none_or]

/-- Whether a source can be converted or not, what it is converted to is noted. -/
theorem after_materializeSource (w : Workspace) (s : PackageSet) (source : SourceFile) :
    ((w.materializeSource source).exec s).2 = s.addFiles (w.converted s source) := by
  cases hconvert : source.convert (w.resolveType s) with
  | ok files => rw [w.exec_materializeSource_ok ⟨files, hconvert⟩]
  | error e =>
      rw [materializeSource, exec_bind, exec_get, converted]
      simp only [hconvert]
      rfl

end Workspace

/-! ## After every sequence of calls -/

def SourceBody.document? : SourceBody → Option Document
  | .document d => some d
  | .parsed _ => none

theorem SourceBody.document?_eq_some {body : SourceBody} {d : Document} (h : body = .document d) :
    body.document? = some d := by
  rw [h]
  rfl

namespace Repository

/-- The sources of all packages that can be had. -/
def sources (r : Repository) : List SourceFile :=
  r.packages.values.flatMap fun
    | .ok contents => contents.sources
    | .error _ => []

def documents (r : Repository) : List Document :=
  r.sources.filterMap fun source => source.body.document?

/-- Documents have paths like documents, and each its own. -/
structure WellNamed (r : Repository) : Prop where
  source : ∀ d ∈ r.documents, FileName.IsSource d.path
  distinct : (r.documents.map Document.path).Nodup

theorem mem_sources_of_contents {r : Repository} {name : String} {contents : PackageContents}
    (h : r.contents name = .ok contents) {source : SourceFile} (hsource : source ∈ contents.sources) :
    source ∈ r.sources :=
  List.mem_flatMap.mpr ⟨.ok contents, List.mem_map_of_mem (mem_entries_of_contents h), hsource⟩

theorem mem_sources_of_package {r : Repository} {s : PackageSet} (hs : s.Summarized r) {name : String}
    {p : Package} (hp : s.packages.get? name = some p) {source : SourceFile}
    (hsource : source ∈ p.sources) : source ∈ r.sources := by
  obtain ⟨q, hq, hext⟩ := hs name p hp
  obtain ⟨-, contents, hcontents, hsources⟩ := sources_of_summarize hq
  rw [hext.sources, ← hsources] at hsource
  exact mem_sources_of_contents hcontents hsource

theorem mem_documents {r : Repository} {source : SourceFile} (hsource : source ∈ r.sources)
    {d : Document} (hbody : source.body = .document d) : d ∈ r.documents :=
  List.mem_filterMap.mpr ⟨source, hsource, SourceBody.document?_eq_some hbody⟩

end Repository

namespace Workspace

variable {w : Workspace}

/-- The document is converted to the file, with the types that are known at some time. -/
def ConvertsTo (w : Workspace) (d : Document) (f : FileDescriptor) : Prop :=
  ∃ (s : PackageSet) (files : List FileDescriptor), d.convert (w.resolveType s) = .ok files ∧ f ∈ files

/-- The file is not converted from a document: it is a source of its own, or not of the repository. -/
def IsGiven (w : Workspace) (file : String) (f : FileDescriptor) : Prop :=
  (∃ source ∈ w.repository.sources, ∃ p, source.body = .parsed p ∧ f = p.descriptor) ∨
    w.foreign? file = .ok (some f)

/-- Where a file can come from that is found under a name. -/
def Traced (w : Workspace) (file : String) (f : FileDescriptor) : Prop :=
  (f.nameText = file ∧ ∃ d ∈ w.repository.documents, w.ConvertsTo d f) ∨ w.IsGiven file f

theorem traced_of_converted {s : PackageSet} {source : SourceFile}
    (hsource : source ∈ w.repository.sources) {f : FileDescriptor} (hf : f ∈ w.converted s source) :
    w.Traced f.nameText f := by
  have hconvert := (convertible_of_mem_converted hf).convert
  rw [SourceFile.convert] at hconvert
  cases hbody : source.body with
  | document d =>
      rw [hbody] at hconvert
      exact Or.inl ⟨rfl, d, Repository.mem_documents hsource hbody, s, _, hconvert, hf⟩
  | parsed p =>
      rw [hbody, Except.ok.injEq] at hconvert
      rw [← hconvert] at hf
      exact Or.inr (Or.inl ⟨source, hsource, p, hbody, List.mem_singleton.mp hf⟩)

def tracedFiles (w : Workspace) : Invariant where
  set s := s.Summarized w.repository ∧ ∀ file f, s.files.get? file = some f → w.Traced file f
  file _ _ := True
  package _ _ _ := True

theorem keeps_tracedFiles (w : Workspace) : w.Keeps w.tracedFiles where
  found _ _ := trivial
  cached _ _ := trivial
  lasts _ _ := trivial
  load {s s'} hstep hs := by
    refine ⟨hstep.summarized hs.1, ?_⟩
    cases hstep with
    | summarize => exact hs.2
    | resolve =>
        rw [PackageSet.files_update]
        exact hs.2
  convert {s name p sources} hp hsub _ hs := by
    refine ⟨hs.1, fun file f hf => ?_⟩
    rw [get?_addFiles, Option.or_eq_some_iff] at hf
    rcases hf with hf | ⟨-, hf⟩
    · obtain ⟨hmem, rfl⟩ := mem_of_lastNamed hf
      obtain ⟨source, hsource, hmem⟩ := List.mem_flatMap.mp hmem
      exact traced_of_converted (Repository.mem_sources_of_package hs.1 hp (hsub hsource)) hmem
    · exact hs.2 file f hf
  materialize {s name p} _ _ _ hs := by
    have hext := (Step.materialize (w := w) s name).extends
    refine ⟨hs.1.of_extends hext fun _ _ => PackageSet.exists_of_update, ?_⟩
    rw [PackageSet.files_update]
    exact hs.2
  foreign {s file package f} _ _ hf hs := by
    refine ⟨hs.1, fun k g hg => ?_⟩
    rw [Dict.get?_insert] at hg
    split at hg
    · rename_i hk
      cases hg
      exact Or.inr (Or.inr (hk ▸ hf))
    · exact hs.2 k g hg
  declare _ _ _ _ hs := hs
  link _ _ _ _ _ hs := hs
  build {s name p files dependencies} _ _ _ _ hs := by
    have hext := PackageSet.Extends.of_built s name { name, files, prose := p.prose, dependencies }
    refine ⟨hs.1.of_extends hext fun _ _ => PackageSet.exists_of_update, ?_⟩
    show ∀ file f, (s.update name _).files.get? file = some f → _
    rw [PackageSet.files_update]
    exact hs.2
  linking hs := hs

theorem traced_of_calls {s : PackageSet} (h : Calls (· = w) {} s) {file : String}
    {f : FileDescriptor} (hf : s.files.get? file = some f) : w.Traced file f := by
  have hset : w.tracedFiles.set s := h.invariant (by rintro _ rfl; exact keeps_tracedFiles _)
    ⟨PackageSet.summarized_empty _, fun _ _ hfile => by cases hfile⟩
  exact hset.2 file f hf

/-- Under the names of a document no file of another document is ever found. -/
theorem convertsTo_of_found (hw : w.repository.WellNamed) {s : PackageSet} (h : Calls (· = w) {} s)
    {d : Document} (hd : d ∈ w.repository.documents) {file : String}
    (hfile : file ∈ FileName.files d.path)
    (hplain : ∀ e ∈ w.repository.documents, ¬ FileName.Disguised e.path file) {f : FileDescriptor}
    (hf : s.files.get? file = some f) : w.ConvertsTo d f ∨ w.IsGiven file f := by
  rcases traced_of_calls h hf with ⟨rfl, e, he, hconverts⟩ | hgiven
  · obtain ⟨s₀, files, hconvert, hmem⟩ := id hconverts
    have hpath : e.path = d.path := FileName.eq_of_mem_files (hw.source e he) (hw.source d hd)
      ((Document.names_sublist hconvert).subset (List.mem_map_of_mem hmem)) hfile (hplain e he) (hplain d hd)
    rw [List.inj_on_of_nodup_map hw.distinct he hd hpath] at hconverts
    exact Or.inl hconverts
  · exact Or.inr hgiven

/-- Names of files tell the documents they come from, so documents do not overwrite each other's files:
not when one is converted, and not after any calls. -/
theorem names_tell_documents (w : Workspace) :
    (∀ path, FileName.IsSource path →
      FileName.sourceOf? (FileName.subFile path FileName.serviceFolder) = some path ∧
      FileName.sourceOf? (FileName.subFile path FileName.topicFolder) = some path ∧
      (FileName.sourceOf? (FileName.mainFile path) = some path ↔ FileName.isDerived path = false)) ∧
    (∀ (d e : Document) (r r' : Resolver) (files files' : List FileDescriptor),
      FileName.IsSource d.path → FileName.IsSource e.path → d.path ≠ e.path →
      d.convert r = .ok files → e.convert r' = .ok files' →
      ∀ f ∈ files, ∀ g ∈ files', f.nameText = g.nameText →
        FileName.Disguised d.path f.nameText ∨ FileName.Disguised e.path g.nameText) ∧
    (∀ (s : PackageSet) (source : SourceFile) (d : Document), source.body = .document d →
      ∃ t, ((w.materializeSource source).exec s).2 = t ∧ ((w.lintSource source).exec s).2 = t ∧
        (∀ f ∈ w.converted s source, t.files.get? f.nameText = some f) ∧
        ∀ path, FileName.IsSource d.path → FileName.IsSource path → path ≠ d.path →
          ∀ file ∈ FileName.files path, ¬ FileName.Disguised d.path file →
            ¬ FileName.Disguised path file → t.files.get? file = s.files.get? file) ∧
    (w.repository.WellNamed → ∀ s, Calls (· = w) {} s → ∀ d ∈ w.repository.documents,
      ∀ file ∈ FileName.files d.path,
        (∀ e ∈ w.repository.documents, ¬ FileName.Disguised e.path file) →
        ∀ f, s.files.get? file = some f → w.ConvertsTo d f ∨ w.IsGiven file f) := by
  refine ⟨fun path h => ⟨FileName.sourceOf?_subFile h (.inl rfl), FileName.sourceOf?_subFile h (.inr rfl),
    FileName.sourceOf?_mainFile_iff h⟩, ?_, ?_, ?_⟩
  · intro d e r r' files files' hd he hne hfiles hfiles' f hf g hg hname
    by_contra hplain
    obtain ⟨hplain, hplain'⟩ := not_or.mp hplain
    have hown := (Document.names_sublist hfiles).subset (List.mem_map_of_mem hf)
    have hother := (Document.names_sublist hfiles').subset (List.mem_map_of_mem hg)
    rw [hname] at hplain hown
    exact hne (FileName.eq_of_mem_files hd he hown hother hplain hplain')
  · intro s source d hbody
    refine ⟨_, w.after_materializeSource s source, congrArg Prod.snd (w.exec_lintSource s source),
      fun f hf => get?_addFiles_converted hbody hf, ?_⟩
    intro path hsource hother hne file hfile hplain hplain'
    exact get?_addFiles_other hbody hsource hother hne hfile hplain hplain'
  · intro hw s hs d hd file hfile hplain f hf
    exact convertsTo_of_found hw hs hd hfile hplain hf

/-- A document of package `foo.v1` with an object, a service and a topic. -/
def sampleDocument (path name : String) : Document where
  path := path
  package := "foo.v1"
  elements :=
    [.object { name }, .service { name := some name, methods := [{ name := "Get" }] },
     .topic { name, kind := .publish [{ name := name ++ "Sent" }] }]

def samplePackage (documents : List Document) : Workspace where
  repository :=
    { packages := .ofList
        [("foo.v1", .ok { sources := documents.filterMap fun d =>
            (SourceFile.ofDocument d none).toOption })] }
  catalog := {}

def sampleSource (d : Document) : SourceFile where
  name := d.path
  summary := {}
  body := .document d

def barDocument : Document := sampleDocument "foo/v1/bar.j5s" "Bar"
def bazDocument : Document := sampleDocument "foo/v1/baz.p.j5s" "Baz"

/-- A document whose main file has the name of the file of services of `barDocument`. -/
def clashingDocument : Document := sampleDocument "foo/v1/service/bar.p.j5s" "Baz"

def neighbours : Workspace := samplePackage [barDocument, bazDocument]

theorem names_tell_documents_neighbours :
    (FileName.IsSource bazDocument.path ∧
      FileName.sourceOf? "foo/v1/service/baz.p.p.j5s.proto" = some bazDocument.path) ∧
    (∃ files files', barDocument.convert (neighbours.resolveType {}) = .ok files ∧
      bazDocument.convert (neighbours.resolveType {}) = .ok files' ∧ files.length = 3 ∧
      ∀ f ∈ files, ∀ g ∈ files', f.nameText = g.nameText →
        FileName.Disguised barDocument.path f.nameText ∨
          FileName.Disguised bazDocument.path g.nameText) ∧
    (∃ t, ((neighbours.materializeSource (sampleSource barDocument)).exec {}).2 = t ∧
      t.files.get? "foo/v1/service/baz.p.p.j5s.proto" = none) ∧
    neighbours.repository.WellNamed ∧
    ∃ s f, Calls (· = neighbours) {} s ∧ s.files.get? "foo/v1/service/bar.p.j5s.proto" = some f ∧
      (neighbours.ConvertsTo barDocument f ∨ neighbours.IsGiven "foo/v1/service/bar.p.j5s.proto" f) := by
  have hbar : FileName.IsSource barDocument.path := by decide +kernel
  have hbaz : FileName.IsSource bazDocument.path := by decide +kernel
  have hne : bazDocument.path ≠ barDocument.path := by decide +kernel
  have hw : neighbours.repository.WellNamed := ⟨by decide +kernel, by decide +kernel⟩
  obtain ⟨hread, hdistinct, hstep, hrun⟩ := names_tell_documents neighbours
  refine ⟨⟨hbaz, ?_⟩, ?_, ?_, hw, ?_⟩
  · have hname : FileName.subFile bazDocument.path FileName.serviceFolder =
        "foo/v1/service/baz.p.p.j5s.proto" := by decide +kernel
    exact hname ▸ (hread bazDocument.path hbaz).1
  · have hlengths : ((barDocument.convert (neighbours.resolveType {})).toOption.map List.length) =
        some 3 ∧ (bazDocument.convert (neighbours.resolveType {})).toOption.isSome = true := by
      decide +kernel
    obtain ⟨hbarFiles, hbazFiles⟩ := hlengths
    rcases hconvert : barDocument.convert (neighbours.resolveType {}) with e | files
    · rw [hconvert] at hbarFiles
      cases hbarFiles
    rcases hconvert' : bazDocument.convert (neighbours.resolveType {}) with e | files'
    · rw [hconvert'] at hbazFiles
      cases hbazFiles
    rw [hconvert] at hbarFiles
    exact ⟨files, files', rfl, rfl, Option.some.inj hbarFiles,
      hdistinct barDocument bazDocument _ _ files files' hbar hbaz hne.symm hconvert hconvert'⟩
  · obtain ⟨t, ht, -, -, hsame⟩ := hstep {} (sampleSource barDocument) barDocument rfl
    exact ⟨t, ht, hsame bazDocument.path hbar hbaz hne "foo/v1/service/baz.p.p.j5s.proto"
      (by decide +kernel) (by decide +kernel) (by decide +kernel)⟩
  · let s := Call.after neighbours {} (.compile "foo.v1")
    have hs : Calls (· = neighbours) {} s := .single ⟨neighbours, rfl, _, rfl⟩
    have hfound : (s.files.get? "foo/v1/service/bar.p.j5s.proto").isSome = true := by decide +kernel
    obtain ⟨f, hf⟩ := Option.isSome_iff_exists.mp hfound
    have hmem : barDocument ∈ neighbours.repository.documents := List.mem_cons_self
    exact ⟨s, f, hs, hf, hrun hw s hs barDocument hmem _ (by decide +kernel) (by decide +kernel) f hf⟩

/-- The main file of `bar.p.j5s` tells another document or none, and can take the place of a file of the
other. -/
theorem names_mistaken_clashingDocument :
    (FileName.IsSource "foo/v1/bar.p.j5s" ∧
      FileName.sourceOf? (FileName.mainFile "foo/v1/bar.p.j5s") = none) ∧
    (FileName.IsSource clashingDocument.path ∧
      FileName.sourceOf? (FileName.mainFile clashingDocument.path) = some barDocument.path) ∧
    ∃ s t file,
      ((neighbours.materializeSource (sampleSource barDocument)).exec {}).2 = s ∧
      ((neighbours.materializeSource (sampleSource clashingDocument)).exec s).2 = t ∧
      (s.files.get? file).map FileDescriptor.packageText = some "foo.v1.service" ∧
      (t.files.get? file).map FileDescriptor.packageText = some "foo.v1" := by
  refine ⟨by decide +kernel, by decide +kernel, _, _, "foo/v1/service/bar.p.j5s.proto", rfl, rfl, ?_⟩
  decide +kernel

end Workspace
end Schematic
