import Schematic.Proofs.Conversion.Origins
import Schematic.Proofs.Package.BuildOrder
import Schematic.Proofs.Package.TypeFile
import Schematic.Proofs.Package.WithImports

/-!
# The files of packages in one list

The files of built packages and of all that they need are put into one list, each once.  A file
stands behind all files of the packages that its own package leads to, and behind those listed
before it in its package.  Where the name of a file tells its package, that puts it behind
everything it imports but the files listed behind it in its own package: the order there is that
of the sources, whatever they import of each other.
-/

namespace Schematic

open Relation BuildM

/-! ## What a package needs -/

namespace Repository

variable {r : Repository} {name other file : String} {p : Package} {source : SourceFile}

theorem produces_of_summarize (h : r.summarize name = .ok p) (hfile : file ∈ p.produced) :
    r.Produces name file := by
  obtain ⟨source, hsource, hfile⟩ := List.mem_flatMap.mp hfile
  obtain ⟨-, contents, hcontents, hsources⟩ := sources_of_summarize h
  exact ⟨contents, hcontents, source, hsources ▸ hsource, hfile⟩

/-- What a source needs, its package needs, unless it is the package itself. -/
theorem needs_of_source (h : r.summarize name = .ok p) (hsource : source ∈ p.sources)
    (hother : ∀ names, r.sourceDependencies source = .ok names → other ∈ names) :
    other = name ∨ other ∈ p.dependencies := by
  obtain ⟨contents, -, h⟩ := bind_eq_ok h
  obtain ⟨found, hfound, h⟩ := bind_eq_ok h
  cases h
  obtain ⟨names, hmem, hnames⟩ := exists_mem_of_mapM hfound hsource
  refine or_iff_not_imp_left.mpr fun hne => ?_
  refine Sorted.mem_names.mpr (List.mem_filter.mpr ⟨?_, decide_eq_true hne⟩)
  exact List.mem_flatten.mpr ⟨names, hmem, hother names hnames⟩

theorem needs_of_package (h : r.summarize name = .ok p) (hsource : source ∈ p.sources)
    (hother : other ∈ source.summary.packageDependencies) (hlocal : r.isLocal other = true) :
    other = name ∨ other ∈ p.dependencies := by
  refine needs_of_source h hsource fun names hnames => ?_
  obtain ⟨imported, -, hnames⟩ := bind_eq_ok hnames
  cases hnames
  exact List.mem_append_left _ (List.mem_filter.mpr ⟨hother, hlocal⟩)

theorem needs_of_file (h : r.summarize name = .ok p) (hsource : source ∈ p.sources)
    (hfile : file ∈ source.summary.fileDependencies)
    (hpackage : r.packageOf file = .ok (other, true)) : other = name ∨ other ∈ p.dependencies := by
  refine needs_of_source h hsource fun names hnames => ?_
  obtain ⟨imported, himported, hnames⟩ := bind_eq_ok hnames
  cases hnames
  obtain ⟨found, hfound, hresult⟩ := exists_mem_of_mapM himported hfile
  rw [importedPackage, hpackage] at hresult
  cases hresult
  exact List.mem_append_right _ (List.mem_filterMap.mpr ⟨some other, hfound, rfl⟩)

theorem source_of_export (h : r.summarize name = .ok p) {full : String} {t : TypeRef}
    (ht : p.exports.get? full = some t) :
    ∃ source ∈ p.sources, (full, t) ∈ source.summary.exports.entries := by
  obtain ⟨contents, -, h⟩ := bind_eq_ok h
  obtain ⟨found, -, h⟩ := bind_eq_ok h
  cases h
  exact List.mem_flatMap.mp (Dict.mem_of_get?_ofList ht)

end Repository

/-- A type that a source exports stands in a file of that source. -/
theorem SourceFile.Genuine.file_of_export {s : SourceFile} (hs : s.Genuine) {full : String}
    {t : TypeRef} (h : (full, t) ∈ s.summary.exports.entries) : t.file ∈ s.summary.produces := by
  rcases hs with ⟨d, text, hd⟩ | ⟨p, text, rfl⟩
  · rw [(summary_of_ofDocument hd).2] at h ⊢
    obtain ⟨t', ht', heq⟩ := List.mem_map.mp (Dict.mem_of_mem_ofList h)
    cases heq
    rw [SchemaNode.file_of_declaredList _ ht']
    exact List.mem_cons_self
  · obtain ⟨t', ht', heq⟩ := List.mem_map.mp (Dict.mem_of_mem_ofList h)
    cases heq
    rw [FileDescriptor.file_of_mem_types ht']
    exact List.mem_cons_self

/-! ## Where the name of a file tells its package -/

namespace Workspace

/-- The names of local files tell their packages, and stand for no other files. -/
structure Orderly (w : Workspace) : Prop where
  genuine : ∀ name contents, w.repository.contents name = .ok contents →
    ∀ source ∈ contents.sources, source.Genuine
  /-- A document is in the package that it says it is in. -/
  homed : ∀ name contents, w.repository.contents name = .ok contents →
    ∀ source ∈ contents.sources, ∀ d, source.body = .document d → d.package = name
  located : ∀ name file, w.repository.Produces name file →
    w.repository.packageOf file = .ok (name, true)
  /-- No local package has a well-known name. -/
  ordinary : ∀ name, w.repository.isLocal name = true → WellKnown.isPackage name = false
  /-- No file from elsewhere has the name of a local one. -/
  apart : ∀ name file, w.repository.Produces name file → file ∉ Catalog.standardNames ∧
    ∀ package, ∀ f ∈ w.dependencyFiles package ++ w.catalog.filesInPackage package,
      f.nameText ≠ file

namespace Orderly

variable {w : Workspace} {name other file : String} {p : Package}

theorem unshared (hw : w.Orderly) (h : w.repository.Produces name file)
    (h' : w.repository.Produces other file) : other = name := by
  have heq := (hw.located other file h').symm.trans (hw.located name file h)
  rw [Except.ok.injEq, Prod.mk.injEq] at heq
  exact heq.1

theorem genuine_of_summarize (hw : w.Orderly) (h : w.repository.summarize name = .ok p)
    {source : SourceFile} (hsource : source ∈ p.sources) : source.Genuine := by
  obtain ⟨-, contents, hcontents, hsources⟩ := Repository.sources_of_summarize h
  exact hw.genuine name contents hcontents source (hsources ▸ hsource)

theorem produces_of_makes (hw : w.Orderly) {f : FileDescriptor} (h : w.Makes name f) :
    w.repository.Produces name f.nameText := by
  obtain ⟨p, hp, source, hsource, hf⟩ := h
  refine Repository.produces_of_summarize hp (List.mem_flatMap_of_mem hsource ?_)
  rw [← (hw.genuine_of_summarize hp hsource).fileNames_eq]
  exact nameText_mem_of_converted hf

/-- A type of a local package stands in a file of that package. -/
theorem produces_of_type (hw : w.Orderly) {package schema : String} {t : TypeRef}
    (hlocal : w.repository.isLocal package = true)
    (h : w.resolveType w.repository.loaded package schema = .ok t) :
    w.repository.Produces package t.file := by
  unfold resolveType at h
  cases hp : w.repository.loaded.packages.get? package with
  | none =>
      simp only [hp, hlocal, if_true] at h
      cases h
  | some p =>
      simp only [hp] at h
      split at h
      · rename_i found hfound
        cases h
        have hsummary := Repository.get?_loaded.mp hp
        obtain ⟨source, hsource, hexport⟩ := Repository.source_of_export hsummary hfound
        have hfile := (hw.genuine_of_summarize hsummary hsource).file_of_export hexport
        exact Repository.produces_of_summarize hsummary (List.mem_flatMap_of_mem hsource hfile)
      · cases h

/-- A type that stands in a local file is one of a local package. -/
theorem isLocal_of_type (hw : w.Orderly) {package schema : String} {t : TypeRef}
    (h : w.resolveType w.repository.loaded package schema = .ok t)
    (hfile : w.repository.Produces other t.file) : w.repository.isLocal package = true := by
  refine Bool.eq_true_of_not_eq_false fun hlocal => ?_
  have htype := typeIn_of_resolveType (Repository.summarized_loaded _) hlocal h
  obtain ⟨f, hf, hexports⟩ := exists_of_typeIn htype
  have hname := (FileDescriptor.of_get?_exports hexports).1.symm
  exact (hw.apart other t.file hfile).2 package f hf hname

/-- What a file imports comes of its own package or of one that its package needs. -/
theorem package_of_import (hw : w.Orderly) (hp : w.repository.summarize name = .ok p)
    {source : SourceFile} (hsource : source ∈ p.sources) {f : FileDescriptor}
    (hf : f ∈ w.converted w.repository.loaded source) (himport : file ∈ f.dependencies)
    (hfile : w.repository.Produces other file) : other = name ∨ other ∈ p.dependencies := by
  obtain ⟨-, contents, hcontents, hsources⟩ := Repository.sources_of_summarize hp
  have hmem : source ∈ contents.sources := hsources ▸ hsource
  have hpackage := hw.located other file hfile
  have hconvert := (convertible_of_mem_converted hf).convert
  rcases hw.genuine name contents hcontents source hmem with ⟨d, text, hd⟩ | ⟨parsed, text, rfl⟩
  · obtain ⟨hbody, hsummary⟩ := SourceFile.summary_of_ofDocument hd
    rw [SourceFile.convert, hbody] at hconvert
    rcases Document.origin_of_import hconvert hf himport with
      hstandard | hlisted | hown | ⟨package, schema, t, ht, rfl, hknown⟩
    · exact absurd hstandard (hw.apart other file hfile).1
    · exact Repository.needs_of_file hp hsource (hsummary ▸ hlisted) hpackage
    · refine Or.inl (hw.unshared ⟨contents, hcontents, source, hmem, ?_⟩ hfile)
      rw [hsummary]
      exact hown
    · have hlocal := hw.isLocal_of_type ht hfile
      obtain rfl := hw.unshared (hw.produces_of_type hlocal ht) hfile
      rcases hknown with hhome | hwell | hlisted
      · exact Or.inl (hhome.trans (hw.homed name contents hcontents source hmem d hbody))
      · rw [hw.ordinary _ hlocal] at hwell
        cases hwell
      · exact Repository.needs_of_package hp hsource (hsummary ▸ hlisted) hlocal
  · cases hconvert
    obtain rfl := List.mem_singleton.mp hf
    exact Repository.needs_of_file hp hsource himport hpackage

end Orderly
end Workspace

/-! ## The list and its parts -/

theorem FileDescriptor.nodup_distinct (seen : List String) (files : List FileDescriptor) :
    ((distinct seen files).map nameText).Nodup ∧ ∀ f ∈ distinct seen files, f.nameText ∉ seen := by
  induction files generalizing seen with
  | nil => exact ⟨List.nodup_nil, fun _ h => by cases h⟩
  | cons g rest ih =>
      rw [distinct]
      by_cases hg : g.nameText ∈ seen
      · rw [if_pos (by simpa using hg)]
        exact ih seen
      · rw [if_neg (by simpa using hg)]
        obtain ⟨hnodup, hfresh⟩ := ih (g.nameText :: seen)
        constructor
        · rw [List.map_cons, List.nodup_cons]
          refine ⟨fun hin => ?_, hnodup⟩
          obtain ⟨f, hf, hname⟩ := List.mem_map.mp hin
          exact hfresh f hf (hname ▸ List.mem_cons_self)
        · intro f hf
          rcases List.mem_cons.mp hf with rfl | hf
          · exact hg
          · exact fun hin => hfresh f hf (List.mem_cons_of_mem _ hin)

/-- What stood before a file that was kept was kept before it, or another of its name was. -/
theorem FileDescriptor.split_distinct {files before after : List FileDescriptor}
    {seen : List String} {f : FileDescriptor} (h : distinct seen files = before ++ f :: after) :
    ∃ earlier later, files = earlier ++ f :: later ∧
      ∀ g ∈ earlier, g.nameText ∈ seen ∨ g.nameText ∈ before.map nameText := by
  induction files generalizing seen before with
  | nil => simp [distinct] at h
  | cons g rest ih =>
      rw [distinct] at h
      by_cases hg : g.nameText ∈ seen
      · rw [if_pos (by simpa using hg)] at h
        obtain ⟨earlier, later, rfl, hearlier⟩ := ih h
        refine ⟨g :: earlier, later, rfl, fun x hx => ?_⟩
        rcases List.mem_cons.mp hx with rfl | hx
        · exact Or.inl hg
        · exact hearlier x hx
      · rw [if_neg (by simpa using hg)] at h
        cases before with
        | nil =>
            rw [List.nil_append, List.cons.injEq] at h
            exact ⟨[], rest, by rw [h.1]; rfl, fun _ hx => by cases hx⟩
        | cons first before =>
            rw [List.cons_append, List.cons.injEq] at h
            obtain ⟨rfl, h⟩ := h
            obtain ⟨earlier, later, rfl, hearlier⟩ := ih h
            refine ⟨g :: earlier, later, rfl, fun x hx => ?_⟩
            rw [List.map_cons, List.mem_cons]
            rcases List.mem_cons.mp hx with rfl | hx
            · exact Or.inr (Or.inl rfl)
            · rcases hearlier x hx with hseen | hbefore
              · exact (List.mem_cons.mp hseen).elim (fun h => Or.inr (Or.inl h)) Or.inl
              · exact Or.inr (Or.inr hbefore)

theorem BuiltPackage.split_allFilesList {packages : List BuiltPackage}
    {before after : List FileDescriptor} {f : FileDescriptor}
    (h : allFilesList packages = before ++ f :: after) :
    ∃ b ∈ packages, ∃ earlier later, b.allFiles = earlier ++ f :: later ∧ earlier ⊆ before := by
  induction packages generalizing before with
  | nil => simp [allFilesList] at h
  | cons b rest ih =>
      rw [allFilesList] at h
      rcases List.append_eq_append_iff.mp h with ⟨middle, rfl, hrest⟩ | ⟨middle, hb, hafter⟩
      · obtain ⟨c, hc, earlier, later, heq, hsub⟩ := ih hrest
        exact ⟨c, List.mem_cons_of_mem b hc, earlier, later, heq,
          List.subset_append_of_subset_right _ hsub⟩
      · cases middle with
        | nil =>
            have hrest : allFilesList rest = [] ++ f :: after := hafter.symm
            obtain ⟨c, hc, earlier, later, heq, hsub⟩ := ih hrest
            exact ⟨c, List.mem_cons_of_mem b hc, earlier, later, heq,
              List.Subset.trans hsub (List.nil_subset before)⟩
        | cons first middle =>
            rw [List.cons_append, List.cons.injEq] at hafter
            obtain ⟨rfl, -⟩ := hafter
            exact ⟨b, List.mem_cons_self, before, middle, hb, List.Subset.refl _⟩

namespace PackageSet

variable {s : PackageSet}

/-- A file of a built package comes of a package that it leads to, behind all that this one needs
and behind the files that it has before. -/
theorem Delivers.split {b : BuiltPackage} (hb : s.Delivers b) {before after : List FileDescriptor}
    {f : FileDescriptor} (h : b.allFiles = before ++ f :: after) :
    ∃ c, s.Delivers c ∧ ReflTransGen s.DependsOn b.name c.name ∧
      ∃ earlier later, c.files.map LinkedFile.descriptor = earlier ++ f :: later ∧
        BuiltPackage.allFilesList c.dependencies ++ earlier ⊆ before := by
  induction hb generalizing before after with
  | @mk name p files prose dependencies hp hfiles hnames hdeps ih =>
      have hself : s.Delivers { name, files, prose, dependencies } := .mk hp hfiles hnames hdeps
      rw [BuiltPackage.allFiles] at h
      rcases List.append_eq_append_iff.mp h with ⟨middle, rfl, hown⟩ | ⟨middle, hneeded, hafter⟩
      · exact ⟨_, hself, .refl, middle, after, hown, List.Subset.refl _⟩
      · cases middle with
        | nil =>
            rw [List.append_nil] at hneeded
            refine ⟨_, hself, .refl, [], after, hafter.symm, ?_⟩
            rw [List.append_nil, ← hneeded]
            exact List.Subset.refl _
        | cons first middle =>
            rw [List.cons_append, List.cons.injEq] at hafter
            obtain ⟨rfl, -⟩ := hafter
            obtain ⟨d, hd, earlier, later, heq, hsub⟩ := BuiltPackage.split_allFilesList hneeded
            obtain ⟨c, hc, hpath, own, others, hown, hbefore⟩ := ih d hd heq
            refine ⟨c, hc, .head ⟨p, hp, ?_⟩ hpath, own, others, hown,
              List.Subset.trans hbefore hsub⟩
            rw [hnames]
            exact List.mem_map_of_mem hd

/-- The files of a built package are those that come of its sources. -/
theorem Delivers.names_files (hs : s.ImportsLinked) {b : BuiltPackage} (hb : s.Delivers b) :
    ∃ p, s.packages.get? b.name = some p ∧
      (b.files.map LinkedFile.descriptor).map FileDescriptor.nameText = p.produced := by
  cases hb with
  | @mk name p files prose dependencies hp hfiles hnames hdeps =>
      refine ⟨p, hp, ?_⟩
      rw [List.map_map, eq_comm, ← List.forall₂_eq_eq_eq, List.forall₂_map_right_iff]
      exact hfiles.imp fun file l hl => (hs.named file l hl).symm

/-- Where a file stands among others: `before` has all that its package has before it and all that
the package leads to, and `later` is what the package has behind it. -/
structure Placed (s : PackageSet) (before : List String) (f : FileDescriptor) (package : String)
    (later : List String) : Prop where
  own : ∃ p, s.packages.get? package = some p ∧
    ∃ earlier, p.produced = earlier ++ f.nameText :: later ∧ earlier ⊆ before
  needed : ∀ other, TransGen s.DependsOn package other →
    ∀ p, s.packages.get? other = some p → p.produced ⊆ before

/-- Every file of the list is placed behind what its package needs. -/
theorem placed_of_flatten (hs : s.ImportsLinked) {packages : List BuiltPackage}
    (hpackages : ∀ b ∈ packages, s.Delivers b) {before after : List FileDescriptor}
    {f : FileDescriptor} (h : BuiltPackage.flatten packages = before ++ f :: after) :
    ∃ package later, s.Placed (before.map FileDescriptor.nameText) f package later := by
  obtain ⟨all, _, hall, hbefore⟩ := FileDescriptor.split_distinct h
  obtain ⟨b, hb, part, _, hpart, hsub⟩ := BuiltPackage.split_allFilesList hall
  obtain ⟨c, hc, -, earlier, later, hfiles, hrest⟩ := (hpackages b hb).split hpart
  have hkept : ∀ g ∈ BuiltPackage.allFilesList c.dependencies ++ earlier,
      g.nameText ∈ before.map FileDescriptor.nameText := fun g hg =>
    (hbefore g (hsub (hrest hg))).resolve_left List.not_mem_nil
  obtain ⟨p, hp, hnames⟩ := hc.names_files hs
  refine ⟨c.name, later.map FileDescriptor.nameText, ?_, ?_⟩
  · refine ⟨p, hp, earlier.map FileDescriptor.nameText, ?_, ?_⟩
    · rw [← hnames, hfiles, List.map_append, List.map_cons]
    · intro file hfile
      obtain ⟨g, hg, rfl⟩ := List.mem_map.mp hfile
      exact hkept g (List.mem_append_right _ hg)
  · intro other hpath q hq file hfile
    obtain ⟨source, hsource, hfile⟩ := List.mem_flatMap.mp hfile
    obtain ⟨middle, hstep, hpath⟩ := TransGen.head'_iff.mp hpath
    cases hc with
    | mk hp' _ hdependencies hdeps =>
        obtain ⟨p', hp'', hmiddle⟩ := hstep
        rw [hp', Option.some.injEq] at hp''
        rw [← hp'', hdependencies] at hmiddle
        obtain ⟨d, hd, rfl⟩ := List.mem_map.mp hmiddle
        obtain ⟨e, he, rfl, hesub⟩ := (hdeps d hd).reaches hpath
        obtain ⟨g, hg, rfl⟩ := he.produced hs hq hsource hfile
        have hin := mem_allFilesList.mpr ⟨d, hd, hesub g hg⟩
        exact hkept g (List.mem_append_left _ hin)

theorem Summarized.produces {r : Repository} (hs : s.Summarized r) {name file : String}
    {p : Package} (hp : s.packages.get? name = some p) (hfile : file ∈ p.produced) :
    r.Produces name file := by
  obtain ⟨summary, hsummary, hextends⟩ := hs name p hp
  exact Repository.produces_of_summarize hsummary (hextends.produced_eq ▸ hfile)

/-- What is linked under the name of a file of a package was made by a source of that package. -/
theorem Found.made {w : Workspace} (hw : w.Orderly) (hfound : s.Found w) {package file : String}
    {l : LinkedFile} (hl : s.linked.get? file = some l) {p : Package}
    (hp : w.repository.summarize package = .ok p) (hfile : file ∈ p.produced) :
    ∃ source ∈ p.sources, ∃ f ∈ w.converted w.repository.loaded source,
      l.descriptor.dependencies = f.dependencies := by
  have hown := Repository.produces_of_summarize hp hfile
  obtain ⟨f, ⟨hname, ⟨maker, q, hq, source, hsource, hf⟩ | houtside⟩, symbols, hlink⟩ :=
    hfound.linked file l hl
  · have hmaker := hw.produces_of_makes ⟨q, hq, source, hsource, hf⟩
    obtain rfl := hw.unshared hown (hname ▸ hmaker)
    rw [hp, Except.ok.injEq] at hq
    exact ⟨source, hq ▸ hsource, f, hf, (Symbols.link_frame hlink).2⟩
  · obtain ⟨⟨owner, howner⟩, -⟩ := Workspace.outside?_eq_some.mp houtside
    rw [hw.located package file hown] at howner
    cases howner

/-- A file that is placed so comes behind what it imports, but for what its package has behind
it. -/
theorem Placed.imports {w : Workspace} (hw : w.Orderly) (hfound : s.Found w) (hs : s.ImportsLinked)
    {before later : List String} {f : FileDescriptor} {package : String}
    (h : s.Placed before f package later) (hf : s.HasFile f) {other file : String} {q : Package}
    (hq : s.packages.get? other = some q) (hfile : file ∈ q.produced)
    (himport : file ∈ f.dependencies) : file ∈ before ∨ file ∈ later := by
  obtain ⟨p, hp, earlier, hproduced, hearlier⟩ := h.own
  obtain ⟨l, hl, rfl⟩ := hf
  obtain ⟨summary, hsummary, hextends⟩ := hfound.summarized package p hp
  have hown : l.descriptor.nameText ∈ summary.produced := by
    rw [← hextends.produced_eq, hproduced]
    exact List.mem_append_right _ List.mem_cons_self
  obtain ⟨source, hsource, g, hg, hsame⟩ := hfound.made hw hl hsummary hown
  have hpackage := hw.package_of_import hsummary hsource hg (hsame ▸ himport)
    (hfound.summarized.produces hq hfile)
  rcases hpackage with rfl | hneeded
  · rw [hp, Option.some.injEq] at hq
    rw [← hq, hproduced, List.mem_append, List.mem_cons] at hfile
    rcases hfile with hfile | rfl | hfile
    · exact Or.inl (hearlier hfile)
    · exact absurd (.single ⟨l, hl, himport⟩) (hs.acyclic _)
    · exact Or.inr hfile
  · refine Or.inl (h.needed other (.single ⟨p, hp, ?_⟩) q hq hfile)
    rw [hextends.dependencies]
    exact hneeded

end PackageSet

/-! ## All packages built -/

namespace Workspace

variable {w : Workspace} {s s' : PackageSet} {names : List String} {bs : List BuiltPackage}

/-- The packages asked for are given out, with others that they lead to. -/
theorem delivers_of_buildAll (hw : w.NamesFiles) (hs : Calls (· = w) {} s)
    (h : (w.buildAll names).exec s = (.ok bs, s')) :
    linkedFiles.set s' ∧ (∀ b ∈ bs, s'.Delivers b) ∧ (∀ n ∈ names, ∃ b ∈ bs, b.name = n) ∧
      ∀ b ∈ bs, ∃ n ∈ names, ReflTransGen s'.DependsOn n b.name := by
  have hset : linkedFiles.set s := hs.linkedFiles (by rintro _ rfl; exact hw)
  have hordered : s.Ordered := (hs.lifecycle PackageSet.lifecycle_empty).toOrdered
  obtain ⟨order, s₁, horder, hbuilds⟩ := exec_bind_eq_ok.mp h
  rcases hload : (names.forM w.load).exec s with ⟨e | ⟨⟩, s₂⟩
  · rw [w.exec_buildOrder_of_error hload] at horder
    cases horder
  obtain ⟨-, -, order', heq, hisOrder⟩ := w.exec_buildOrder_of_ok hordered hload
  rw [horder] at heq
  cases heq
  have hset₁ : linkedFiles.set s₁ := by
    have := (hw.keeps.ensures_buildOrder names).moves.keeps hset
    rwa [horder] at this
  have hensures := hw.keeps.ensures_builds order hset₁
  have hmoves := hensures.moves
  have hall := hensures.ok bs (by rw [hbuilds])
  rw [hbuilds] at hmoves hall
  refine ⟨hmoves.keeps hset₁, fun b hb => ?_, fun n hn => ?_, fun b hb => ?_⟩
  · obtain ⟨_, -, -, hdelivers⟩ := exists_of_forall₂ hall.flip hb
    exact hdelivers
  · obtain ⟨b, hb, hname, -⟩ := exists_of_forall₂ hall ((hisOrder.mem_iff n).mpr ⟨n, hn, .refl⟩)
    exact ⟨b, hb, hname⟩
  · obtain ⟨n, hn, hname, -⟩ := exists_of_forall₂ hall.flip hb
    obtain ⟨m, hm, hpath⟩ := (hisOrder.mem_iff n).mp hn
    rw [hname]
    exact ⟨m, hm, hpath.lift id fun _ _ hstep => hmoves.extends.dependsOn hstep⟩

/-- A file is in the list just if it comes of a package that those asked for lead to. -/
theorem mem_names_flatten (hw : w.NamesFiles) (hs : Calls (· = w) {} s)
    (h : (w.buildAll names).exec s = (.ok bs, s')) {file : String} :
    file ∈ (BuiltPackage.flatten bs).map FileDescriptor.nameText ↔
      ∃ n ∈ names, ∃ name, ReflTransGen s'.DependsOn n name ∧
        ∃ p, s'.packages.get? name = some p ∧ file ∈ p.produced := by
  obtain ⟨⟨-, himports, -⟩, hdelivers, hasked, hled⟩ := delivers_of_buildAll hw hs h
  constructor
  · intro hfile
    obtain ⟨f, hf, rfl⟩ := List.mem_map.mp hfile
    obtain ⟨b, hb, hfb⟩ := PackageSet.mem_allFilesList.mp (PackageSet.mem_of_mem_distinct hf)
    obtain ⟨before, after, hsplit⟩ := List.append_of_mem hfb
    obtain ⟨c, hc, hpath, earlier, later, hfiles, -⟩ := (hdelivers b hb).split hsplit
    obtain ⟨p, hp, hnames⟩ := hc.names_files himports
    obtain ⟨n, hn, hpath'⟩ := hled b hb
    refine ⟨n, hn, c.name, hpath'.trans hpath, p, hp, ?_⟩
    rw [← hnames, hfiles]
    exact List.mem_map_of_mem (List.mem_append_right _ List.mem_cons_self)
  · rintro ⟨n, hn, name, hpath, p, hp, hfile⟩
    obtain ⟨b, hb, rfl⟩ := hasked n hn
    obtain ⟨c, hc, rfl, hsub⟩ := (hdelivers b hb).reaches hpath
    obtain ⟨source, hsource, hfile⟩ := List.mem_flatMap.mp hfile
    obtain ⟨f, hf, rfl⟩ := hc.produced himports hp hsource hfile
    have hin := PackageSet.mem_allFilesList.mpr ⟨b, hb, hsub f hf⟩
    exact (PackageSet.mem_distinct hin).resolve_right List.not_mem_nil

/-- The files of packages in one list.  No name occurs twice, and the names are those of the files
that come of the packages asked for and of all that these lead to.  Every file stands behind what
its package has before it and behind all that its package leads to; where names tell packages, what
it imports out of the list is before it, or is what its package has behind it. -/
theorem flatten_dependencies_first {w : Workspace} (hw : w.NamesFiles) {s s' : PackageSet}
    (hs : Calls (· = w) {} s) {names : List String} {bs : List BuiltPackage}
    (h : (w.buildAll names).exec s = (.ok bs, s')) :
    ((BuiltPackage.flatten bs).map FileDescriptor.nameText).Nodup ∧
    (∀ f ∈ BuiltPackage.flatten bs, s'.HasFile f) ∧
    (∀ file, file ∈ (BuiltPackage.flatten bs).map FileDescriptor.nameText ↔
      ∃ n ∈ names, ∃ name, ReflTransGen s'.DependsOn n name ∧
        ∃ p, s'.packages.get? name = some p ∧ file ∈ p.produced) ∧
    ∀ before f after, BuiltPackage.flatten bs = before ++ f :: after →
      ∃ package later, s'.Placed (before.map FileDescriptor.nameText) f package later ∧
        (w.Orderly → ∀ g ∈ BuiltPackage.flatten bs, g.nameText ∈ f.dependencies →
          g ∈ before ∨ g.nameText ∈ later) := by
  obtain ⟨⟨-, himports, -⟩, hdelivers, -, -⟩ := delivers_of_buildAll hw hs h
  have hnodup := (FileDescriptor.nodup_distinct [] (BuiltPackage.allFilesList bs)).1
  have hlinked : ∀ f ∈ BuiltPackage.flatten bs, s'.HasFile f := by
    intro f hf
    obtain ⟨b, hb, hfb⟩ := PackageSet.mem_allFilesList.mp (PackageSet.mem_of_mem_distinct hf)
    exact (hdelivers b hb).hasFile himports hfb
  have hfound : s'.Found w := by
    have := (hw.keeps_found.ensures_buildAll names (hs.found hw)).moves.keeps (hs.found hw)
    rwa [h] at this
  refine ⟨hnodup, hlinked, fun _ => mem_names_flatten hw hs h, fun before f after hsplit => ?_⟩
  obtain ⟨package, later, hplaced⟩ := PackageSet.placed_of_flatten himports hdelivers hsplit
  refine ⟨package, later, hplaced, fun horderly g hg himport => ?_⟩
  have hf : f ∈ BuiltPackage.flatten bs := by
    rw [hsplit]
    exact List.mem_append_right _ List.mem_cons_self
  obtain ⟨_, -, other, -, q, hq, hfile⟩ := (mem_names_flatten hw hs h).mp (List.mem_map_of_mem hg)
  refine (hplaced.imports horderly hfound himports (hlinked f hf) hq hfile himport).imp_left ?_
  -- Of the files in the list only `g` has that name.
  intro hbefore
  obtain ⟨g', hg', hname⟩ := List.mem_map.mp hbefore
  have hin : g' ∈ BuiltPackage.flatten bs := by
    rw [hsplit]
    exact List.mem_append_left _ hg'
  exact List.inj_on_of_nodup_map hnodup hin hg hname ▸ hg'

/-- The first file of `a.v1` imports the second, and one of `b.v1`. -/
def lateImport : Workspace where
  repository :=
    { packages := .ofList
        [("a.v1", .ok { sources :=
            [.ofParsed ⟨{ name := some "a/v1/first.proto"
                          dependencies := ["a/v1/second.proto", "b/v1/b.proto"] }, {}⟩ none,
             .ofParsed ⟨{ name := some "a/v1/second.proto" }, {}⟩ none] }),
         ("b.v1", .ok { sources := [.ofParsed ⟨{ name := some "b/v1/b.proto" }, {}⟩ none] })] }
  catalog := {}

/-- Its files, each with its package. -/
def lateImportFiles : List (String × String) :=
  [("a/v1/first.proto", "a.v1"), ("a/v1/second.proto", "a.v1"), ("b/v1/b.proto", "b.v1")]

theorem namesFiles_lateImport : lateImport.NamesFiles :=
  .of_alone rfl rfl

theorem parsed_of_lateImport {name : String} {contents : PackageContents}
    (h : lateImport.repository.contents name = .ok contents) {source : SourceFile}
    (hsource : source ∈ contents.sources) :
    ∃ f text, source = .ofParsed ⟨f, {}⟩ text ∧
      (f.nameText, name) ∈ lateImportFiles := by
  rcases List.mem_cons.mp (Repository.mem_entries_of_contents h) with heq | hmem
  · cases heq
    rcases List.mem_cons.mp hsource with rfl | hsource
    · exact ⟨_, _, rfl, by decide +kernel⟩
    · rw [List.mem_singleton.mp hsource]
      exact ⟨_, _, rfl, by decide +kernel⟩
  · cases List.mem_singleton.mp hmem
    rw [List.mem_singleton.mp hsource]
    exact ⟨_, _, rfl, by decide +kernel⟩

theorem orderly_lateImport : lateImport.Orderly := by
  have hproduces : ∀ name file, lateImport.repository.Produces name file →
      (file, name) ∈ lateImportFiles := by
    rintro name file ⟨contents, hcontents, source, hsource, hfile⟩
    obtain ⟨f, text, rfl, hmem⟩ := parsed_of_lateImport hcontents hsource
    rw [List.mem_singleton.mp hfile]
    exact hmem
  refine ⟨fun name contents h source hsource => ?_, fun name contents h source hsource d hd => ?_,
    fun name file h => ?_, fun name hlocal => ?_, fun name file h => ⟨?_, fun package f hf => ?_⟩⟩
  · obtain ⟨f, text, rfl, -⟩ := parsed_of_lateImport h hsource
    exact Or.inr ⟨_, text, rfl⟩
  · obtain ⟨f, text, rfl, -⟩ := parsed_of_lateImport h hsource
    cases hd
  · have hall : ∀ entry ∈ lateImportFiles, FileName.packageFor entry.1 = entry.2 ∧
        lateImport.repository.isLocal entry.2 = true := by decide +kernel
    obtain ⟨hpackage, hlocal⟩ := hall _ (hproduces name file h)
    show Except.ok (FileName.packageFor file,
      lateImport.repository.isLocal (FileName.packageFor file)) = _
    rw [hpackage, hlocal]
  · have hall : ∀ name ∈ lateImport.repository.packages.keys,
        WellKnown.isPackage name = false := by decide +kernel
    exact hall name (Dict.mem_keys hlocal)
  · have hall : ∀ entry ∈ lateImportFiles, entry.1 ∉ Catalog.standardNames := by decide +kernel
    exact hall _ (hproduces name file h)
  · cases hf

theorem flatten_dependencies_first_lateImport :
    lateImport.Orderly ∧ ∃ bs s', (lateImport.buildAll ["a.v1"]).exec {} = (.ok bs, s') ∧
      (BuiltPackage.flatten bs).map FileDescriptor.nameText =
        ["b/v1/b.proto", "a/v1/first.proto", "a/v1/second.proto"] ∧
      ∀ before f after, BuiltPackage.flatten bs = before ++ f :: after →
        ∃ package later, s'.Placed (before.map FileDescriptor.nameText) f package later ∧
          ∀ g ∈ BuiltPackage.flatten bs, g.nameText ∈ f.dependencies →
            g ∈ before ∨ g.nameText ∈ later := by
  obtain ⟨bs, s', h, hnames⟩ : ∃ bs s', (lateImport.buildAll ["a.v1"]).exec {} = (.ok bs, s') ∧
      (BuiltPackage.flatten bs).map FileDescriptor.nameText =
        ["b/v1/b.proto", "a/v1/first.proto", "a/v1/second.proto"] := ⟨_, _, rfl, rfl⟩
  refine ⟨orderly_lateImport, bs, s', h, hnames, fun before f after hsplit => ?_⟩
  obtain ⟨-, -, -, hplaced⟩ := flatten_dependencies_first namesFiles_lateImport .refl h
  obtain ⟨package, later, hplace, himports⟩ := hplaced before f after hsplit
  exact ⟨package, later, hplace, himports orderly_lateImport⟩

/-- A file of the list that comes before one it imports. -/
theorem flatten_import_behind :
    ∃ bs s', (lateImport.buildAll ["a.v1"]).exec {} = (.ok bs, s') ∧
      ∃ before f after, BuiltPackage.flatten bs = before ++ f :: after ∧
        ∃ g ∈ after, g.nameText ∈ f.dependencies := by
  refine ⟨_, _, rfl, ?_⟩
  refine ⟨[_], _, [_], rfl, _, List.mem_cons_self, ?_⟩
  decide +kernel

end Workspace
end Schematic
