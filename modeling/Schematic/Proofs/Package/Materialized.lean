import Schematic.Proofs.Conversion.Lookup
import Schematic.Proofs.Package.Lifecycle

/-!
# Converted packages

Once all sources of a package are converted, they can be converted again at any later
time and give the same files, since no type that was found is ever lost.  The files found
under their names stay those of the package, as long as no other package produces a file of
the same name.
-/

namespace Schematic

open Relation BuildM

/-! ## Sources -/

namespace SourceFile

/-- The summary of the source is that of what it holds. -/
def Genuine (s : SourceFile) : Prop :=
  (∃ d text, ofDocument d text = .ok s) ∨ ∃ p text, s = ofParsed p text

theorem convert_of_more {s : SourceFile} {r r' : Resolver}
    (hmore : ∀ package name t, r package name = .ok t → r' package name = .ok t)
    {files : List FileDescriptor} (h : s.convert r = .ok files) : s.convert r' = .ok files := by
  unfold convert at h ⊢
  split at h
  · exact Document.convert_of_more hmore h
  · exact h

end SourceFile

theorem Document.names_drafts (d : Document) (c : Conversion) (nodes : List RootNode) :
    (d.drafts c nodes).map FileDraft.name = d.produces nodes := by
  have hservice : (d.serviceDraft? c (RootNode.services nodes)).toList.map FileDraft.name =
      if (RootNode.services nodes).isEmpty then [] else [d.serviceFile] := by
    unfold serviceDraft?
    split <;> rfl
  have htopic : (d.topicDraft? c (RootNode.topics nodes)).toList.map FileDraft.name =
      if (RootNode.topics nodes).isEmpty then [] else [d.topicFile] := by
    unfold topicDraft?
    split <;> rfl
  rw [drafts, List.map_cons, List.map_append, hservice, htopic]
  rfl

/-- The files that come of a source are known by name before it is converted. -/
theorem SourceFile.names_eq_fileNames {s : SourceFile} {r : Resolver} {files : List FileDescriptor}
    (h : s.convert r = .ok files) : files.map FileDescriptor.nameText = s.fileNames := by
  unfold convert at h
  unfold fileNames
  cases hbody : s.body with
  | document d =>
      rw [hbody] at h
      obtain ⟨-, rfl⟩ := Document.convert_eq_ok h
      rw [List.map_map]
      exact d.names_drafts _ d.nodes
  | parsed p =>
      rw [hbody] at h
      cases h
      rfl

theorem SourceFile.summary_of_ofDocument {s : SourceFile} {d : Document} {text : Option String}
    (h : ofDocument d text = .ok s) : s.body = .document d ∧ s.summary = d.summaryOf d.nodes := by
  obtain ⟨summary, hsummary, h⟩ := bind_eq_ok h
  cases h
  unfold Document.summary at hsummary
  split at hsummary
  · cases hsummary
    exact ⟨rfl, rfl⟩
  · cases hsummary

theorem SourceFile.Genuine.fileNames_eq {s : SourceFile} (hs : s.Genuine) :
    s.fileNames = s.summary.produces := by
  rcases hs with ⟨d, text, hd⟩ | ⟨p, text, rfl⟩
  · obtain ⟨hbody, hsummary⟩ := summary_of_ofDocument hd
    rw [fileNames, hbody, hsummary]
    rfl
  · rfl

/-- The files of a source have the names that its summary gives. -/
theorem SourceFile.Genuine.names_of_convert {s : SourceFile} (hs : s.Genuine) {r : Resolver}
    {files : List FileDescriptor} (h : s.convert r = .ok files) :
    files.map FileDescriptor.nameText = s.summary.produces :=
  (names_eq_fileNames h).trans hs.fileNames_eq

/-- The names of the files of a package. -/
def Package.produced (p : Package) : List String :=
  p.sources.flatMap fun source => source.summary.produces

theorem Package.Extends.produced_eq {p q : Package} (h : p.Extends q) : q.produced = p.produced := by
  rw [produced, h.sources]
  rfl

namespace Repository

/-- A source of the package produces the file. -/
def Produces (r : Repository) (name file : String) : Prop :=
  ∃ contents, r.contents name = .ok contents ∧
    ∃ source ∈ contents.sources, file ∈ source.summary.produces

/-- Sources come with their own summaries, and no two packages produce a file of one name. -/
structure Tidy (r : Repository) : Prop where
  genuine : ∀ name contents, r.contents name = .ok contents →
    ∀ source ∈ contents.sources, source.Genuine
  unshared : ∀ a b file, r.Produces a file → r.Produces b file → a = b

theorem mem_entries_of_contents {r : Repository} {name : String} {contents : PackageContents}
    (h : r.contents name = .ok contents) : (name, .ok contents) ∈ r.packages.entries := by
  rw [Repository.contents] at h
  cases hp : r.packages.get? name with
  | none =>
      rw [hp] at h
      cases h
  | some found =>
      rw [hp, Option.getD_some] at h
      exact Dict.mem_entries (h ▸ hp)

theorem sources_of_summarize {r : Repository} {name : String} {p : Package}
    (h : r.summarize name = .ok p) :
    p.materialized = false ∧ ∃ contents, r.contents name = .ok contents ∧
      contents.sources = p.sources := by
  obtain ⟨contents, hcontents, h⟩ := bind_eq_ok h
  obtain ⟨found, -, h⟩ := bind_eq_ok h
  cases h
  exact ⟨rfl, contents, hcontents, rfl⟩

end Repository

/-! ## Types that are known -/

namespace Workspace

variable {w : Workspace} {s s' : PackageSet}

/-- Types are looked up among the exports of packages. -/
theorem resolveType_congr (h : ∀ k, (s'.packages.get? k).map Package.exports =
    (s.packages.get? k).map Package.exports) : w.resolveType s' = w.resolveType s := by
  funext package name
  have hk := h package
  unfold resolveType
  cases hp : s.packages.get? package with
  | none =>
      rw [hp, Option.map_none, Option.map_eq_none_iff] at hk
      simp only [hk]
  | some p =>
      rw [hp, Option.map_some, Option.map_eq_some_iff] at hk
      obtain ⟨q, hq, hexports⟩ := hk
      simp only [hq, hexports]

theorem resolveType_update (s : PackageSet) (name : String) (f : Package → Package)
    (hf : ∀ p, (f p).exports = p.exports) : w.resolveType (s.update name f) = w.resolveType s := by
  refine resolveType_congr fun k => ?_
  rw [PackageSet.get?_update]
  by_cases hk : k = name
  · rw [if_pos hk, hk, Option.map_map]
    congr 1
    exact funext hf
  · rw [if_neg hk]

/-- A type that was found is found again when more packages are loaded. -/
theorem resolveType_of_load (h : LoadStep w.repository s s') {package name : String} {t : TypeRef}
    (ht : w.resolveType s package name = .ok t) : w.resolveType s' package name = .ok t := by
  cases h with
  | @summarize new p hnew hlocal hp =>
      unfold resolveType at ht ⊢
      rw [Dict.get?_insert]
      by_cases hk : package = new
      · -- A local package that is not loaded has no types yet.
        rw [hk] at ht
        simp only [hnew, hlocal, if_true] at ht
        cases ht
      · rw [if_neg hk]
        exact ht
  | @resolve name p hp hstate hdeps =>
      rw [resolveType_update s name (fun p => { p with state := .resolved }) fun _ => rfl]
      exact ht

theorem Convertible.of_more {source : SourceFile} (h : w.Convertible s source)
    (hmore : ∀ package name t, w.resolveType s package name = .ok t →
      w.resolveType s' package name = .ok t) :
    w.Convertible s' source ∧ w.converted s' source = w.converted s source := by
  have hconvert := SourceFile.convert_of_more hmore h.convert
  exact ⟨⟨_, hconvert⟩, by rw [converted, hconvert]⟩

/-! ## Files that are held -/

/-- The sources can all be converted, and what comes of them is found already. -/
structure Holds (w : Workspace) (s : PackageSet) (sources : List SourceFile) : Prop where
  convertible : ∀ source ∈ sources, w.Convertible s source
  found : ∀ k, (s.addFiles (sources.flatMap (w.converted s))).files.get? k = s.files.get? k

/-- The last of several files with one name. -/
def lastNamed (files : List FileDescriptor) (k : String) : Option FileDescriptor :=
  (files.map fun f => (f.nameText, f)).reverse.lookup k

theorem get?_addFiles (s : PackageSet) (files : List FileDescriptor) (k : String) :
    (s.addFiles files).files.get? k = (lastNamed files k).or (s.files.get? k) :=
  Dict.get?_insertAll s.files _ k

theorem mem_of_lastNamed {files : List FileDescriptor} {k : String} {f : FileDescriptor}
    (h : lastNamed files k = some f) : f ∈ files ∧ f.nameText = k := by
  obtain ⟨before, after, heq, -⟩ := List.lookup_eq_some_iff.mp h
  have hmem : (k, f) ∈ (files.map fun f => (f.nameText, f)).reverse := by
    rw [heq]
    simp
  obtain ⟨g, hg, hgk⟩ := List.mem_map.mp (List.mem_reverse.mp hmem)
  cases hgk
  exact ⟨hg, rfl⟩

theorem Holds.last {sources : List SourceFile} (h : w.Holds s sources) (k : String) :
    (lastNamed (sources.flatMap (w.converted s)) k).or (s.files.get? k) = s.files.get? k := by
  rw [← get?_addFiles]
  exact h.found k

/-- The files of a converted package are there. -/
theorem Holds.contains {sources : List SourceFile} (h : w.Holds s sources) {source : SourceFile}
    (hsource : source ∈ sources) (hgenuine : source.Genuine) {file : String}
    (hfile : file ∈ source.summary.produces) : ∃ f, s.files.get? file = some f := by
  rw [← hgenuine.names_of_convert (h.convertible source hsource).convert] at hfile
  obtain ⟨f, hf, rfl⟩ := List.mem_map.mp hfile
  have hlast := h.last f.nameText
  cases hfound : lastNamed (sources.flatMap (w.converted s)) f.nameText with
  | some g =>
      rw [hfound, Option.some_or] at hlast
      exact ⟨g, hlast.symm⟩
  | none =>
      have hmem : f ∈ sources.flatMap (w.converted s) := List.mem_flatMap.mpr ⟨source, hsource, hf⟩
      have hne := List.lookup_eq_none_iff.mp hfound (f.nameText, f)
        (List.mem_reverse.mpr (List.mem_map_of_mem hmem))
      exact absurd rfl (bne_iff_ne.mp hne)

/-- More types become known, and files are found only where these files have no name. -/
theorem Holds.of_more {sources : List SourceFile} (h : w.Holds s sources)
    (hmore : ∀ package name t, w.resolveType s package name = .ok t →
      w.resolveType s' package name = .ok t)
    (hfiles : ∀ k f, lastNamed (sources.flatMap (w.converted s)) k = some f →
      s'.files.get? k = s.files.get? k) : w.Holds s' sources := by
  have hconverted : sources.flatMap (w.converted s') = sources.flatMap (w.converted s) :=
    List.flatMap_congr fun source hsource => ((h.convertible source hsource).of_more hmore).2
  refine ⟨fun source hsource => ((h.convertible source hsource).of_more hmore).1, fun k => ?_⟩
  rw [get?_addFiles, hconverted]
  cases hlast : lastNamed (sources.flatMap (w.converted s)) k with
  | none => rfl
  | some f =>
      have hs := h.last k
      rw [hlast] at hs
      rw [hfiles k f hlast]
      exact hs

end Workspace

/-! ## After every sequence of calls -/

/-- What is loaded is what the repository has, and the files of converted packages are held. -/
structure PackageSet.Held (s : PackageSet) (w : Workspace) : Prop where
  sources : ∀ name p, s.packages.get? name = some p →
    ∃ contents, w.repository.contents name = .ok contents ∧ contents.sources = p.sources
  holds : ∀ name p, s.packages.get? name = some p → p.materialized = true → w.Holds s p.sources

def heldFiles (w : Workspace) : Invariant where
  set s := s.Held w
  file _ _ := True
  package _ _ _ := True

namespace PackageSet.Held

variable {w : Workspace} {s s' : PackageSet}

theorem produces (h : s.Held w) (hw : w.repository.Tidy) {name : String} {p : Package}
    (hp : s.packages.get? name = some p) {sources : List SourceFile} (hsub : sources ⊆ p.sources)
    {k : String} {f : FileDescriptor}
    (hlast : Workspace.lastNamed (sources.flatMap (w.converted s)) k = some f) :
    w.repository.Produces name k := by
  obtain ⟨contents, hcontents, hsources⟩ := h.sources name p hp
  obtain ⟨hmem, rfl⟩ := Workspace.mem_of_lastNamed hlast
  obtain ⟨source, hsource, hg⟩ := List.mem_flatMap.mp hmem
  have hmem : source ∈ contents.sources := hsources ▸ hsub hsource
  refine ⟨contents, hcontents, source, hmem, ?_⟩
  cases hconvert : source.convert (w.resolveType s) with
  | error e =>
      rw [Workspace.converted, hconvert] at hg
      cases hg
  | ok files =>
      rw [Workspace.converted, hconvert] at hg
      rw [← (hw.genuine name contents hcontents source hmem).names_of_convert hconvert]
      exact List.mem_map_of_mem hg

/-- Neither sources nor files change, and no package is marked as converted. -/
theorem of_same (h : s.Held w)
    (hpackages : ∀ k q, s'.packages.get? k = some q → ∃ p, s.packages.get? k = some p ∧
      q.sources = p.sources ∧ (q.materialized = true → p.materialized = true))
    (hmore : ∀ package name t, w.resolveType s package name = .ok t →
      w.resolveType s' package name = .ok t)
    (hfiles : s'.files = s.files) : s'.Held w where
  sources name q hq := by
    obtain ⟨p, hp, hsources, -⟩ := hpackages name q hq
    rw [hsources]
    exact h.sources name p hp
  holds name q hq hm := by
    obtain ⟨p, hp, hsources, hmaterialized⟩ := hpackages name q hq
    rw [hsources]
    exact (h.holds name p hp (hmaterialized hm)).of_more hmore fun k _ _ => by rw [hfiles]

/-- A package is changed in neither its sources nor its exports. -/
theorem of_update (h : s.Held w) {name : String} {f : Package → Package}
    (hpackages : s'.packages = (s.update name f).packages) (hfiles : s'.files = s.files)
    (hf : ∀ p, (f p).sources = p.sources ∧ (f p).exports = p.exports ∧
      (f p).materialized = p.materialized) : s'.Held w := by
  have hget : ∀ k q, s'.packages.get? k = some q →
      ∃ p, s.packages.get? k = some p ∧ (q = f p ∨ q = p) := by
    intro k q hq
    rw [hpackages, get?_update] at hq
    by_cases hk : k = name
    · rw [if_pos hk, Option.map_eq_some_iff] at hq
      obtain ⟨p, hp, rfl⟩ := hq
      exact ⟨p, hk ▸ hp, Or.inl rfl⟩
    · rw [if_neg hk] at hq
      exact ⟨q, hq, Or.inr rfl⟩
  have hresolve : w.resolveType s' = w.resolveType s := by
    rw [← Workspace.resolveType_update s name f fun p => (hf p).2.1]
    exact Workspace.resolveType_congr fun k => by rw [hpackages]
  refine h.of_same (fun k q hq => ?_) (fun _ _ _ ht => by rwa [hresolve]) hfiles
  obtain ⟨p, hp, rfl | rfl⟩ := hget k q hq
  · obtain ⟨hsources, -, hmaterialized⟩ := hf p
    exact ⟨p, hp, hsources, fun hm => by rwa [← hmaterialized]⟩
  · exact ⟨q, hp, rfl, id⟩

theorem of_packages (h : s.Held w) (hpackages : s'.packages = s.packages)
    (hfiles : s'.files = s.files) : s'.Held w := by
  have hresolve : w.resolveType s' = w.resolveType s :=
    Workspace.resolveType_congr fun k => by rw [hpackages]
  refine h.of_same (fun k q hq => ?_) (fun _ _ _ ht => by rwa [hresolve]) hfiles
  exact ⟨q, hpackages ▸ hq, rfl, id⟩

/-- A package is loaded. -/
theorem summarize (h : s.Held w) {name : String} {p : Package}
    (hload : LoadStep w.repository s { s with packages := s.packages.insert name p })
    (hp : w.repository.summarize name = .ok p) :
    PackageSet.Held { s with packages := s.packages.insert name p } w := by
  obtain ⟨hmaterialized, hcontents⟩ := Repository.sources_of_summarize hp
  have hget : ∀ k q, (s.packages.insert name p).get? k = some q →
      (k = name ∧ p = q) ∨ s.packages.get? k = some q := by
    intro k q hq
    rw [Dict.get?_insert] at hq
    by_cases hk : k = name
    · rw [if_pos hk, Option.some.injEq] at hq
      exact Or.inl ⟨hk, hq⟩
    · rw [if_neg hk] at hq
      exact Or.inr hq
  constructor
  · intro k q hq
    rcases hget k q hq with ⟨rfl, rfl⟩ | hq
    · exact hcontents
    · exact h.sources k q hq
  · intro k q hq hm
    rcases hget k q hq with ⟨rfl, rfl⟩ | hq
    · rw [hmaterialized] at hm
      cases hm
    · exact (h.holds k q hq hm).of_more (fun _ _ _ ht => Workspace.resolveType_of_load hload ht)
        fun _ _ _ => rfl

/-- Sources of a package are converted, all of them if that can be done. -/
theorem convert (h : s.Held w) (hw : w.repository.Tidy) {name : String} {p : Package}
    {sources : List SourceFile} (hp : s.packages.get? name = some p) (hsub : sources ⊆ p.sources)
    (hall : (∀ source ∈ p.sources, w.Convertible s source) → sources = p.sources) :
    (s.addFiles (sources.flatMap (w.converted s))).Held w where
  sources := h.sources
  holds k q hq hm := by
    have hq : s.packages.get? k = some q := hq
    have hheld := h.holds k q hq hm
    by_cases hk : k = name
    · rw [hk, hp, Option.some.injEq] at hq
      subst hq
      rw [hall hheld.convertible]
      exact ⟨hheld.convertible, Workspace.get?_addFiles_twice s _⟩
    · refine hheld.of_more (fun _ _ _ ht => ht) fun file f hlast => ?_
      rw [Workspace.get?_addFiles]
      cases hother : Workspace.lastNamed (sources.flatMap (w.converted s)) file with
      | none => rfl
      | some g =>
          have hmine := h.produces hw hq (List.Subset.refl _) hlast
          exact absurd (hw.unshared k name file hmine (h.produces hw hp hsub hother)) hk

end PackageSet.Held

theorem Workspace.keeps_heldFiles {w : Workspace} (hw : w.repository.Tidy) :
    w.Keeps (heldFiles w) where
  found _ _ := trivial
  cached _ _ := trivial
  lasts _ _ := trivial
  load {s s'} hstep hs := by
    cases hstep with
    | summarize hnew hlocal hp => exact hs.summarize (.summarize hnew hlocal hp) hp
    | resolve hp hstate hdeps =>
        exact PackageSet.Held.of_update hs rfl (s.files_update _ _) fun _ => ⟨rfl, rfl, rfl⟩
  convert hp hsub hall hs := PackageSet.Held.convert hs hw hp hsub hall
  materialize {s name p} hp hall hfound hs := by
    have hresolve : w.resolveType (s.update name fun p => { p with materialized := true }) =
        w.resolveType s := resolveType_update s name _ fun _ => rfl
    have hmore : ∀ package k t, w.resolveType s package k = .ok t →
        w.resolveType (s.update name fun p => { p with materialized := true }) package k = .ok t :=
      fun _ _ _ ht => by rwa [hresolve]
    have hfiles := s.files_update name fun p => { p with materialized := true }
    constructor
    · intro k q hq
      rw [PackageSet.get?_update_of_some hp] at hq
      by_cases hk : k = name
      · rw [if_pos hk, Option.some.injEq] at hq
        rw [← hq, hk]
        exact hs.sources name p hp
      · rw [if_neg hk] at hq
        exact hs.sources k q hq
    · intro k q hq hm
      rw [PackageSet.get?_update_of_some hp] at hq
      by_cases hk : k = name
      · rw [if_pos hk, Option.some.injEq] at hq
        rw [← hq]
        have hheld : w.Holds s p.sources := ⟨hall, hfound⟩
        exact hheld.of_more hmore fun _ _ _ => by rw [hfiles]
      · rw [if_neg hk] at hq
        exact (hs.holds k q hq hm).of_more hmore fun _ _ _ => by rw [hfiles]
  foreign {s file package f} hnew hpackage hf hs := by
    refine ⟨hs.sources, fun k q hq hm => ?_⟩
    refine (hs.holds k q hq hm).of_more (fun _ _ _ ht => ht) fun name g hlast => ?_
    rw [Dict.get?_insert, if_neg]
    rintro rfl
    -- A file that is held was found before.
    have hlast' := (hs.holds k q hq hm).last name
    rw [hlast, hnew] at hlast'
    cases hlast'
  declare _ _ _ _ hs := PackageSet.Held.of_packages hs rfl rfl
  link _ _ _ _ _ hs := PackageSet.Held.of_packages hs rfl rfl
  build {s name p files dependencies} hp _ _ _ hs :=
    PackageSet.Held.of_update hs rfl (s.files_update _ _) fun _ => ⟨rfl, rfl, rfl⟩
  linking hs := PackageSet.Held.of_packages hs rfl rfl

theorem PackageSet.held_empty (w : Workspace) : ({} : PackageSet).Held w := by
  constructor
  · rintro _ _ ⟨⟩
  · rintro _ _ ⟨⟩

end Schematic
