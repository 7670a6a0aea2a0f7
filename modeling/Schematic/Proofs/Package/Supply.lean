import Schematic.Proofs.Link.Visible
import Schematic.Proofs.Package.Circular
import Schematic.Proofs.Package.Linked
import Schematic.Proofs.Package.Materialized

/-!
# What there is to be found

All calls share one package set, and each leaves files, symbols and linked files behind for the
next.  What a workspace has to offer does not depend on that: a source is converted with all
packages loaded, a file is linked with a table that has what it imports, and a package is put
together from its linked files and those of the packages it needs.  In a steady workspace each
of these is settled once and for all, and whatever a package set holds is just that.
-/

namespace Schematic

open Relation BuildM

/-! ## Packages as they were summarized -/

namespace PackageSet

/-- Every package has what its summary says. -/
def Summarized (s : PackageSet) (r : Repository) : Prop :=
  ∀ name q, s.packages.get? name = some q → ∃ p, r.summarize name = .ok p ∧ p.Extends q

theorem summarized_empty (r : Repository) : ({} : PackageSet).Summarized r :=
  fun _ _ h => by cases h

/-- Packages that only change keep their summaries. -/
theorem Summarized.of_extends {s s' : PackageSet} {r : Repository} (h : s.Summarized r)
    (hext : s.Extends s')
    (hold : ∀ name q, s'.packages.get? name = some q → ∃ p, s.packages.get? name = some p) :
    s'.Summarized r := by
  intro name q hq
  obtain ⟨p, hp⟩ := hold name q hq
  obtain ⟨summary, hsummary, hextends⟩ := h name p hp
  exact ⟨summary, hsummary, hextends.trans (hext.package_of_later hp hq)⟩

theorem Summarized.faithful {s : PackageSet} {r : Repository} (h : s.Summarized r) :
    s.Faithful r := by
  intro name p hp
  obtain ⟨q, hq, hextends⟩ := h name p hp
  exact ⟨q, hq, hextends.dependencies.symm⟩

/-- An update brings no new package. -/
theorem exists_of_update {s : PackageSet} {changed name : String} {f : Package → Package}
    {q : Package} (h : (s.update changed f).packages.get? name = some q) :
    ∃ p, s.packages.get? name = some p := by
  rw [get?_update] at h
  split at h
  · rename_i heq
    obtain ⟨p, hp, -⟩ := Option.map_eq_some_iff.mp h
    exact ⟨p, heq ▸ hp⟩
  · exact ⟨q, h⟩

end PackageSet

theorem LoadStep.summarized {r : Repository} {s s' : PackageSet} (h : LoadStep r s s')
    (hs : s.Summarized r) : s'.Summarized r := by
  have hext := h.extends
  cases h with
  | @summarize name p hnew hlocal hp =>
      intro k q hq
      have hq : (s.packages.insert name p).get? k = some q := hq
      rw [Dict.get?_insert] at hq
      split at hq
      · rename_i hk
        cases hq
        exact ⟨p, hk ▸ hp, .refl p⟩
      · exact hs k q hq
  | resolve => exact hs.of_extends hext fun _ _ hq => PackageSet.exists_of_update hq

theorem LoadSteps.summarized {r : Repository} {s s' : PackageSet} (h : LoadSteps r s s')
    (hs : s.Summarized r) : s'.Summarized r :=
  keeps_of_run (fun _ _ hstep => hstep.summarized) h hs

namespace Repository

variable {r : Repository}

theorem isLocal_of_summarize {name : String} {p : Package} (h : r.summarize name = .ok p) :
    r.isLocal name = true := by
  obtain ⟨-, contents, hcontents, -⟩ := sources_of_summarize h
  rw [Repository.contents] at hcontents
  cases hget : r.packages.get? name with
  | none =>
      rw [hget] at hcontents
      cases hcontents
  | some found => exact Dict.contains_iff.mpr ⟨found, hget⟩

/-- All packages that can be read, as they are summarized. -/
def loaded (r : Repository) : PackageSet :=
  { packages := .ofList (r.list.filterMap fun name =>
      (r.summarize name).toOption.map fun p => (name, p)) }

theorem get?_loaded {name : String} {p : Package} :
    r.loaded.packages.get? name = some p ↔ r.summarize name = .ok p := by
  have hget : r.loaded.packages.get? name = ((r.list.filterMap fun name =>
      (r.summarize name).toOption.map fun p => (name, p)).reverse.lookup name) := by
    rw [loaded, Dict.ofList, Dict.get?_insertAll]
    exact Option.or_none
  have hmem : ∀ q, (name, q) ∈ (r.list.filterMap fun name =>
      (r.summarize name).toOption.map fun p => (name, p)).reverse → r.summarize name = .ok q := by
    intro q hq
    obtain ⟨k, -, hk⟩ := List.mem_filterMap.mp (List.mem_reverse.mp hq)
    obtain ⟨p, hp, heq⟩ := Option.map_eq_some_iff.mp hk
    cases heq
    cases hsum : r.summarize name with
    | ok p =>
        rw [hsum] at hp
        cases hp
        rfl
    | error e =>
        rw [hsum] at hp
        cases hp
  rw [hget]
  constructor
  · intro h
    obtain ⟨before, after, heq, -⟩ := List.lookup_eq_some_iff.mp h
    exact hmem p (by rw [heq]; simp)
  · intro h
    cases hlookup : ((r.list.filterMap fun name =>
        (r.summarize name).toOption.map fun p => (name, p)).reverse.lookup name) with
    | none =>
        have hin : (name, p) ∈ (r.list.filterMap fun name =>
            (r.summarize name).toOption.map fun p => (name, p)).reverse := by
          refine List.mem_reverse.mpr (List.mem_filterMap.mpr ⟨name, ?_, ?_⟩)
          · exact Dict.mem_keys (isLocal_of_summarize h)
          · rw [h]
            rfl
        have hne := List.lookup_eq_none_iff.mp hlookup _ hin
        simp at hne
    | some q =>
        obtain ⟨before, after, heq, -⟩ := List.lookup_eq_some_iff.mp hlookup
        have hq := hmem q (by rw [heq]; simp)
        rw [h, Except.ok.injEq] at hq
        rw [hq]

theorem summarized_loaded (r : Repository) : r.loaded.Summarized r :=
  fun _ q hq => ⟨q, get?_loaded.mp hq, .refl q⟩

end Repository

/-! ## Types with all packages loaded -/

namespace Workspace

variable {w : Workspace} {s s' : PackageSet}

/-- A package that is loaded in both sets, or in none since it is not local, gives the same types in
both. -/
theorem resolveType_eq (hs : s.Summarized w.repository) (hs' : s'.Summarized w.repository)
    {package : String} (h : w.repository.isLocal package = true →
      (∃ p, s.packages.get? package = some p) ∧ ∃ p, s'.packages.get? package = some p)
    (name : String) : w.resolveType s package name = w.resolveType s' package name := by
  have hexports : (s.packages.get? package).map Package.exports =
      (s'.packages.get? package).map Package.exports := by
    cases hlocal : w.repository.isLocal package with
    | true =>
        obtain ⟨⟨p, hp⟩, q, hq⟩ := h hlocal
        obtain ⟨summary, hsummary, hextends⟩ := hs package p hp
        obtain ⟨summary', hsummary', hextends'⟩ := hs' package q hq
        rw [hsummary, Except.ok.injEq] at hsummary'
        rw [hp, hq, Option.map_some, Option.map_some, hextends.exports, hextends'.exports, hsummary']
    | false =>
        have hnone : ∀ a : PackageSet, a.Summarized w.repository → a.packages.get? package = none := by
          intro a ha
          cases hget : a.packages.get? package with
          | none => rfl
          | some p =>
              obtain ⟨summary, hsummary, -⟩ := ha package p hget
              rw [Repository.isLocal_of_summarize hsummary] at hlocal
              cases hlocal
        rw [hnone s hs, hnone s' hs']
  unfold resolveType
  cases hp : s.packages.get? package with
  | none =>
      rw [hp, Option.map_none] at hexports
      rw [Option.map_eq_none_iff.mp hexports.symm]
  | some p =>
      rw [hp, Option.map_some] at hexports
      obtain ⟨q, hq, hsame⟩ := Option.map_eq_some_iff.mp hexports.symm
      simp only [hq, hsame]

/-- A type that was found is the one that is found with all packages loaded. -/
theorem resolveType_loaded (hs : s.Summarized w.repository) {package name : String} {t : TypeRef}
    (h : w.resolveType s package name = .ok t) :
    w.resolveType w.repository.loaded package name = .ok t := by
  rw [← resolveType_eq hs (Repository.summarized_loaded _) (fun hlocal => ?_) name]
  · exact h
  · cases hp : s.packages.get? package with
    | none =>
        unfold resolveType at h
        simp only [hp, hlocal, if_true] at h
        cases h
    | some p =>
        obtain ⟨summary, hsummary, -⟩ := hs package p hp
        exact ⟨⟨p, rfl⟩, summary, Repository.get?_loaded.mpr hsummary⟩

/-- What a source is converted to at any time is what it is converted to with all packages
loaded. -/
theorem Convertible.loaded (hs : s.Summarized w.repository) {source : SourceFile}
    (h : w.Convertible s source) : w.Convertible w.repository.loaded source ∧
      w.converted w.repository.loaded source = w.converted s source :=
  h.of_more fun _ _ _ => resolveType_loaded hs

theorem convertible_of_mem_converted {source : SourceFile} {f : FileDescriptor}
    (h : f ∈ w.converted s source) : w.Convertible s source := by
  unfold converted at h
  cases hconvert : source.convert (w.resolveType s) with
  | ok files => exact ⟨files, hconvert⟩
  | error e =>
      rw [hconvert] at h
      cases h

/-! ## Files -/

variable (w)

/-- A source of the package is converted to the file. -/
def Makes (name : String) (f : FileDescriptor) : Prop :=
  ∃ p, w.repository.summarize name = .ok p ∧
    ∃ source ∈ p.sources, f ∈ w.converted w.repository.loaded source

/-- The files that the sources of a package are converted to. -/
def ownFiles (name : String) : List FileDescriptor :=
  match w.repository.summarize name with
  | .ok p => p.sources.flatMap (w.converted w.repository.loaded)
  | .error _ => []

/-- What a name stands for if no local package has the file. -/
def outside? (file : String) : Option FileDescriptor :=
  match w.repository.packageOf file, w.foreign? file with
  | .ok (_, false), .ok found => found
  | _, _ => none

/-- All files that can be found at any time. -/
def supply : List FileDescriptor :=
  w.repository.list.flatMap w.ownFiles ++ w.fileNames.filterMap w.outside?

variable {w} {name file : String} {f : FileDescriptor}

theorem mem_ownFiles : f ∈ w.ownFiles name ↔ w.Makes name f := by
  unfold ownFiles Makes
  cases w.repository.summarize name with
  | error e => simp
  | ok p => simp

theorem outside?_eq_some : w.outside? file = some f ↔
    (∃ package, w.repository.packageOf file = .ok (package, false)) ∧
      w.foreign? file = .ok (some f) := by
  unfold outside?
  rcases w.repository.packageOf file with e | ⟨package, _ | _⟩
  · simp
  · rcases w.foreign? file with e | found
    · simp
    · simp
  · simp

theorem Makes.mem_flatMap (h : w.Makes name f) : f ∈ w.repository.list.flatMap w.ownFiles := by
  refine List.mem_flatMap.mpr ⟨name, ?_, mem_ownFiles.mpr h⟩
  obtain ⟨p, hp, -⟩ := h
  exact Dict.mem_keys (Repository.isLocal_of_summarize hp)

theorem Makes.mem_supply (h : w.Makes name f) : f ∈ w.supply :=
  List.mem_append_left _ h.mem_flatMap

theorem mem_fileNames_of_foreign (h : w.foreign? file = .ok (some f)) : file ∈ w.fileNames := by
  have hsets : ∀ sets : List DependencySet, dependencyFile file sets = .ok (some f) →
      file ∈ sets.flatMap fun d => d.entries.map Prod.fst := by
    intro sets hf
    induction sets with
    | nil => cases hf
    | cons d rest ih =>
        obtain ⟨found, hd, hf⟩ := bind_eq_ok hf
        rw [List.flatMap_cons, List.mem_append]
        cases found with
        | none => exact Or.inr (ih hf)
        | some g =>
            unfold DependencySet.get? at hd
            split at hd
            · rename_i hlookup
              obtain ⟨before, after, heq, -⟩ := List.lookup_eq_some_iff.mp hlookup
              exact Or.inl (by rw [heq]; simp)
            · cases hd
            · cases hd
            · cases hd
  obtain ⟨found, hfound, h⟩ := bind_eq_ok h
  rw [fileNames, List.mem_append, List.mem_append]
  cases found with
  | some g =>
      cases h
      exact Or.inl (Or.inr (hsets _ hfound))
  | none =>
      injection h with h
      exact Or.inr (Dict.mem_keys (Dict.contains_iff.mpr ⟨f, h⟩))

theorem mem_supply_of_outside (h : w.outside? file = some f) : f ∈ w.supply := by
  refine List.mem_append_right _ (List.mem_filterMap.mpr ⟨file, ?_, h⟩)
  exact mem_fileNames_of_foreign (outside?_eq_some.mp h).2

/-! ## Steady workspaces -/

/-- A workspace in which what is found, and how it links, is settled. -/
structure Steady (w : Workspace) : Prop where
  tidy : w.repository.Tidy
  /-- Dependency sets and catalog give out files of the name asked for. -/
  named : w.NamesFiles
  compatible : Compatible w.supply

/-! ## Linking and building -/

variable (w)

/-- The file links to `l` with a table that has what it imports. -/
def LinksTo (f : FileDescriptor) (l : LinkedFile) : Prop :=
  ∃ symbols : Symbols, symbols.Of w.supply ∧ symbols.Ready f ∧ symbols.link f = .ok l

/-- The file of that name links to `l`. -/
def Links (file : String) (l : LinkedFile) : Prop :=
  ∃ f ∈ w.supply, f.nameText = file ∧ w.LinksTo f l

/-- A package put together from its linked files and the packages it needs. -/
inductive Yields : BuiltPackage → Prop where
  | mk {name : String} {p : Package} {files : List LinkedFile} {dependencies : List BuiltPackage}
      (hp : w.repository.summarize name = .ok p)
      (hsources : ∀ source ∈ p.sources, w.Convertible w.repository.loaded source)
      (hfiles : List.Forall₂ w.Links (p.sources.flatMap fun source => source.summary.produces) files)
      (hnames : p.dependencies = dependencies.map BuiltPackage.name)
      (hdeps : ∀ b ∈ dependencies, Yields b) :
      Yields { name, files, prose := p.prose, dependencies }

variable {w}

theorem Steady.links_unique (hw : w.Steady) {l l' : LinkedFile} (h : w.Links file l)
    (h' : w.Links file l') : l = l' := by
  obtain ⟨f, hf, hname, symbols, hof, hready, hlink⟩ := h
  obtain ⟨g, hg, hname', symbols', hof', hready', hlink'⟩ := h'
  obtain rfl := hw.compatible.named f hf g hg (hname.trans hname'.symm)
  rw [hof.link_again hof' hw.compatible hf hready hready' hlink, Except.ok.injEq] at hlink'
  exact hlink'

theorem eq_of_names {b b' : List BuiltPackage} (hnames : b.map BuiltPackage.name = b'.map BuiltPackage.name)
    (h : ∀ p ∈ b, ∀ p' ∈ b', p.name = p'.name → p = p') : b = b' := by
  induction b generalizing b' with
  | nil =>
      cases b' with
      | nil => rfl
      | cons => cases hnames
  | cons p rest ih =>
      cases b' with
      | nil => cases hnames
      | cons p' rest' =>
          rw [List.map_cons, List.map_cons, List.cons.injEq] at hnames
          rw [h p List.mem_cons_self p' List.mem_cons_self hnames.1,
            ih hnames.2 fun q hq q' hq' => h q (List.mem_cons_of_mem p hq) q' (List.mem_cons_of_mem p' hq')]

/-- A package can be put together in one way only. -/
theorem Steady.yields_unique (hw : w.Steady) {b b' : BuiltPackage} (h : w.Yields b)
    (h' : w.Yields b') (hname : b.name = b'.name) : b = b' := by
  induction h generalizing b' with
  | @mk name p files dependencies hp _ hfiles hnames _ ih =>
      cases h' with
      | @mk name' p' files' dependencies' hp' _ hfiles' hnames' hdeps' =>
          obtain rfl : name = name' := hname
          rw [hp, Except.ok.injEq] at hp'
          subst hp'
          have hunique : Relator.RightUnique w.Links := fun _ _ _ => hw.links_unique
          have heq : files = files' := List.right_unique_forall₂' hunique hfiles hfiles'
          have hsame : dependencies = dependencies' :=
            eq_of_names (hnames.symm.trans hnames') fun d hd d' hd' => ih d hd (hdeps' d' hd')
          rw [heq, hsame]

end Workspace

/-! ## What a package set holds -/

/-- Files, linked files and built packages are those that the workspace has to offer. -/
structure PackageSet.Canonical (s : PackageSet) (w : Workspace) : Prop where
  held : s.Held w
  summarized : s.Summarized w.repository
  files : ∀ file f, s.files.get? file = some f → f ∈ w.supply ∧ f.nameText = file
  symbols : s.symbols.Of w.supply
  linked : ∀ file l, s.linked.get? file = some l → w.Links file l ∧ s.symbols.containsFile file = true
  built : ∀ name b, s.built.get? name = some b → b.name = name ∧ w.Yields b

def canonical (w : Workspace) : Invariant where
  set s := s.Canonical w
  file name f := f ∈ w.supply ∧ f.nameText = name
  package _ name b := b.name = name ∧ w.Yields b

namespace PackageSet

variable {w : Workspace} {s s' : PackageSet}

theorem canonical_empty (w : Workspace) : ({} : PackageSet).Canonical w where
  held := held_empty w
  summarized := summarized_empty _
  files _ _ h := by cases h
  symbols := Symbols.of_empty _
  linked _ _ h := by cases h
  built _ _ h := by cases h

/-- A change of the packages alone. -/
theorem Canonical.of_packages (h : s.Canonical w) (hheld : s'.Held w)
    (hsummarized : s'.Summarized w.repository) (hfiles : s'.files = s.files)
    (hsymbols : s'.symbols = s.symbols) (hlinked : s'.linked = s.linked)
    (hbuilt : s'.built = s.built) : s'.Canonical w where
  held := hheld
  summarized := hsummarized
  files := hfiles ▸ h.files
  symbols := hsymbols ▸ h.symbols
  linked := by
    rw [hlinked, hsymbols]
    exact h.linked
  built := hbuilt ▸ h.built

/-- A change of the files alone. -/
theorem Canonical.of_files (h : s.Canonical w) (hheld : s'.Held w)
    (hpackages : s'.packages = s.packages) (hsymbols : s'.symbols = s.symbols)
    (hlinked : s'.linked = s.linked) (hbuilt : s'.built = s.built)
    (hfiles : ∀ file f, s'.files.get? file = some f → s.files.get? file = some f ∨
      (f ∈ w.supply ∧ f.nameText = file)) : s'.Canonical w where
  held := hheld
  summarized name q hq := h.summarized name q (hpackages ▸ hq)
  files file f hf := (hfiles file f hf).elim (h.files file f) id
  symbols := hsymbols ▸ h.symbols
  linked := by
    rw [hlinked, hsymbols]
    exact h.linked
  built := hbuilt ▸ h.built

end PackageSet

namespace Workspace

variable {w : Workspace}

/-- What sources of a loaded package are converted to is in the supply. -/
theorem makes_of_converted {s : PackageSet} (hs : s.Summarized w.repository) {name : String}
    {p : Package} (hp : s.packages.get? name = some p) {sources : List SourceFile}
    (hsub : sources ⊆ p.sources) {f : FileDescriptor} (hf : f ∈ sources.flatMap (w.converted s)) :
    w.Makes name f := by
  obtain ⟨source, hsource, hf⟩ := List.mem_flatMap.mp hf
  obtain ⟨summary, hsummary, hextends⟩ := hs name p hp
  obtain ⟨-, heq⟩ := (convertible_of_mem_converted hf).loaded hs
  exact ⟨summary, hsummary, source, hextends.sources ▸ hsub hsource, heq ▸ hf⟩

theorem keeps_canonical (hw : w.Steady) : w.Keeps (canonical w) where
  found hs hf := hs.files _ _ hf
  cached hs hb := hs.built _ _ hb
  lasts _ hb := hb
  load {s s'} hstep hs := by
    have hheld : s'.Held w := (keeps_heldFiles hw.tidy).load hstep hs.held
    have hsummarized := hstep.summarized hs.summarized
    cases hstep with
    | summarize => exact hs.of_packages hheld hsummarized rfl rfl rfl rfl
    | resolve =>
        exact hs.of_packages hheld hsummarized (s.files_update _ _) (s.symbols_update _ _)
          (s.linked_update _ _) (s.built_update _ _)
  convert {s name p sources} hp hsub hall hs := by
    refine hs.of_files ((keeps_heldFiles hw.tidy).convert hp hsub hall hs.held) rfl rfl rfl rfl
      fun file f hf => ?_
    rw [get?_addFiles, Option.or_eq_some_iff] at hf
    rcases hf with hf | ⟨-, hf⟩
    · obtain ⟨hmem, hname⟩ := mem_of_lastNamed hf
      exact Or.inr ⟨(makes_of_converted hs.summarized hp hsub hmem).mem_supply, hname⟩
    · exact Or.inl hf
  materialize {s name p} hp hall hfound hs := by
    have hheld := (keeps_heldFiles hw.tidy).materialize hp hall hfound hs.held
    have hext := (Step.materialize (w := w) s name).extends
    exact hs.of_packages hheld (hs.summarized.of_extends hext fun _ _ => PackageSet.exists_of_update)
      (s.files_update _ _) (s.symbols_update _ _) (s.linked_update _ _) (s.built_update _ _)
  foreign {s file package f} hnew hpackage hf hs := by
    refine hs.of_files ((keeps_heldFiles hw.tidy).foreign hnew hpackage hf hs.held) rfl rfl rfl rfl
      fun k g hg => ?_
    rw [Dict.get?_insert] at hg
    split at hg
    · rename_i hk
      cases hg
      have hout : w.outside? file = some f := outside?_eq_some.mpr ⟨⟨package, hpackage⟩, hf⟩
      exact Or.inr ⟨mem_supply_of_outside hout, (hw.named.nameText_of_foreign hf).trans hk.symm⟩
    · exact Or.inl hg
  declare {s file f symbols} hf _ _ himport hs := by
    refine { hs with
      held := hs.held.of_packages rfl rfl
      symbols := hs.symbols.importFile hw.compatible hf.1 himport
      linked := fun k l hl => ⟨(hs.linked k l hl).1, ?_⟩ }
    exact ((Symbols.importFile_eq_ok himport).2.1 k).mpr (Or.inr (hs.linked k l hl).2)
  link {s file f symbols linked} hf _ himports himport hlink hs := by
    obtain ⟨hmem, hname⟩ := hf
    have hcontains : symbols.containsFile f.nameText = true :=
      ((Symbols.importFile_eq_ok himport).2.1 _).mpr (Or.inl rfl)
    have hlinked : ∀ d ∈ f.dependencies, symbols.containsFile d = true := by
      intro d hd
      obtain ⟨l, hl⟩ := Dict.contains_iff.mp (himports d hd)
      exact (hs.linked d l hl).2
    have hto : w.LinksTo f linked := ⟨symbols, hs.symbols, ⟨hcontains, hlinked⟩, hlink⟩
    refine { hs with held := hs.held.of_packages rfl rfl, linked := fun k l hl => ?_ }
    rw [Dict.get?_insert] at hl
    split at hl
    · rename_i hk
      cases hl
      rw [hk, ← hname]
      exact ⟨⟨f, hmem, rfl, hto⟩, hcontains⟩
    · exact hs.linked k l hl
  build {s name p files dependencies} hp hmaterialized hdeps hfiles hs := by
    obtain ⟨summary, hsummary, hextends⟩ := hs.summarized name p hp
    have hyields : w.Yields { name, files, prose := p.prose, dependencies } := by
      rw [hextends.prose]
      refine .mk hsummary (fun source hsource => ?_) ?_ ?_ fun b hb => ?_
      · have hsource : source ∈ p.sources := hextends.sources ▸ hsource
        exact (((hs.held.holds name p hp hmaterialized).convertible source hsource).loaded
          hs.summarized).1
      · rw [← hextends.sources]
        exact hfiles.imp fun file l hl => (hs.linked file l hl).1
      · rw [← hextends.dependencies, ← List.forall₂_eq_eq_eq, List.forall₂_map_right_iff]
        exact hdeps.imp fun _ _ hb => hb.1.symm
      · obtain ⟨d, -, hd⟩ := exists_of_forall₂ hdeps.flip hb
        exact hd.2
    have hext := PackageSet.Extends.of_built s name { name, files, prose := p.prose, dependencies }
    have hheld := (keeps_heldFiles hw.tidy).build hp hmaterialized
      (hdeps.imp fun _ _ _ => trivial) hfiles hs.held
    refine ⟨hheld, hs.summarized.of_extends hext fun _ _ => PackageSet.exists_of_update, ?_, ?_, ?_,
      fun k b hb => ?_⟩
    · show ∀ file f, (s.update name _).files.get? file = some f → _
      rw [s.files_update]
      exact hs.files
    · show (s.update name _).symbols.Of _
      rw [s.symbols_update]
      exact hs.symbols
    · show ∀ file l, (s.update name _).linked.get? file = some l →
        w.Links file l ∧ (s.update name _).symbols.containsFile file = true
      rw [s.linked_update, s.symbols_update]
      exact hs.linked
    · rw [Dict.get?_insert] at hb
      split at hb
      · rename_i hk
        cases hb
        exact ⟨hk.symm, hyields⟩
      · exact hs.built k b hb
  linking hs := { hs with held := hs.held.of_packages rfl rfl }

end Workspace

theorem Calls.canonical {w : Workspace} (hw : w.Steady) {s : PackageSet} (h : Calls (· = w) {} s) :
    s.Canonical w :=
  h.invariant (by rintro _ rfl; exact Workspace.keeps_canonical hw) (PackageSet.canonical_empty w)

end Schematic
