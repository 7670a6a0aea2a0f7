import Schematic.Proofs.Package.Flatten
import Schematic.Proofs.Package.ImportCycle
import Schematic.Proofs.Package.LintBuild

/-!
# Compiling and what was compiled before

All calls share one package set.  While a document is converted, types are looked up in whatever packages
are loaded by then, and while a file is linked, names are looked up in whatever files were imported by
then.  What a document names in its fields makes its package depend on the packages named, and those are
loaded before it.  A polymorph that an object belongs to makes no such dependency.  And a file that was
linked before may have taken a name that another file means something else by.

In a provident workspace neither can happen, and a package that was built once can be built after any
other calls.  It can be loaded, since what it leads to was resolved without a circle.  It can be converted,
since it asks for types only in packages that are loaded with it.  Its files can be linked, since the files
that they import come of packages that were built with it or from elsewhere.

The package set `t` in which the package was built tells all of this.  The set `s` in which it is built
again may hold more or less than `t`, and whatever failed before may have left its traces there.
-/

namespace Schematic

open Relation BuildM

/-! ## Where a package looks for types -/

/-- Every package of the repository in which the sources ask for a type is their own or one that it
depends on. -/
def Repository.Foresees (r : Repository) (name : String) : Prop :=
  ∀ p, r.summarize name = .ok p → ∀ source ∈ p.sources, ∀ d, source.body = .document d →
    ∀ target ∈ d.lookups, r.isLocal (d.packageOf target) = true →
      d.packageOf target = name ∨ d.packageOf target ∈ p.dependencies

/-- The check of `Foresees`. -/
def Repository.foresees (r : Repository) (name : String) : Bool :=
  match r.summarize name with
  | .error _ => true
  | .ok p => p.sources.all fun source =>
    match source.body with
    | .parsed _ => true
    | .document d => d.lookups.all fun target =>
      !r.isLocal (d.packageOf target) || (name :: p.dependencies).contains (d.packageOf target)

theorem Repository.foresees_iff {r : Repository} {name : String} :
    r.foresees name = true ↔ r.Foresees name := by
  unfold foresees Foresees
  cases r.summarize name with
  | error e => exact ⟨fun _ p hp => (by cases hp), fun _ => rfl⟩
  | ok p =>
      simp only [List.all_eq_true, Except.ok.injEq, forall_eq']
      refine forall₂_congr fun source _ => ?_
      cases source.body with
      | parsed parsed => exact ⟨fun _ d hd => (by cases hd), fun _ => rfl⟩
      | document d =>
          simp only [List.all_eq_true, Bool.or_eq_true, Bool.not_eq_true', List.contains_iff_mem,
            List.mem_cons, SourceBody.document.injEq, forall_eq']
          refine forall₂_congr fun target _ => ?_
          rw [← Bool.not_eq_true, ← imp_iff_not_or]

instance (r : Repository) (name : String) : Decidable (r.Foresees name) :=
  decidable_of_iff (r.foresees name = true) Repository.foresees_iff

/-- Each package with the files that its sources produce. -/
def Repository.products (r : Repository) : List (String × String) :=
  r.packages.entries.flatMap fun
    | (name, .ok contents) =>
      contents.sources.flatMap fun source => source.summary.produces.map fun file => (name, file)
    | (_, .error _) => []

theorem Repository.mem_products {r : Repository} {name file : String} (h : r.Produces name file) :
    (name, file) ∈ r.products := by
  obtain ⟨contents, hcontents, source, hsource, hfile⟩ := h
  refine List.mem_flatMap.mpr ⟨(name, .ok contents), mem_entries_of_contents hcontents, ?_⟩
  exact List.mem_flatMap.mpr ⟨source, hsource, List.mem_map_of_mem hfile⟩

/-! ## Provident workspaces -/

namespace Workspace

/-- A workspace in which a package makes known before it is converted which packages it asks for types
and which files its own import. -/
structure Provident (w : Workspace) : Prop where
  named : w.NamesFiles
  orderly : w.Orderly
  compatible : Compatible w.supply
  foresees : ∀ name, w.repository.Foresees name
  /-- Files from elsewhere import no local ones. -/
  foreign : ∀ file f, w.outside? file = some f → ∀ d ∈ f.dependencies, ∀ name,
    ¬ w.repository.Produces name d

variable {w : Workspace} {s t : PackageSet} {name file : String} {f : FileDescriptor}

theorem Provident.steady (hw : w.Provident) : w.Steady where
  tidy := ⟨hw.orderly.genuine, fun _ _ _ ha hb => hw.orderly.unshared hb ha⟩
  named := hw.named
  compatible := hw.compatible

/-! ## Loading -/

/-- What was resolved once can be loaded at any time.  The packages under way all lead to the one at
hand, so it is none of them. -/
theorem ensures_loadFrom_again (ht : t.Summarized w.repository) (hordered : t.Ordered) {depth : Nat}
    {chain : LoadChain} (hs : s.Summarized w.repository) (hname : t.Resolved name)
    (hnodup : chain.packages.Nodup) (hlocal : ∀ n ∈ chain.packages, w.repository.isLocal n = true)
    (hreach : ∀ n ∈ chain.packages, TransGen w.repository.DependsOn n name)
    (hdepth : depth + chain.packages.length = w.repository.packages.size + 2) :
    Ensures (LoadSteps w.repository) (w.loadFrom depth chain name) s
      (fun _ s' => s'.Resolved name) fun _ _ => False := by
  induction depth generalizing chain name s with
  | zero =>
      have hle := w.length_le_of_local hnodup hlocal
      omega
  | succ depth ih =>
      have hnew : name ∉ chain.packages := fun hin =>
        ht.faithful.not_leadsToCycle hordered hname ⟨name, .refl, hreach name hin⟩
      have henter : chain.enter name = .ok ⟨chain.packages ++ [name]⟩ := by
        rw [LoadChain.enter, if_neg (mt List.contains_iff_mem.mp hnew)]
      obtain ⟨q, hq, -⟩ := id hname
      obtain ⟨summary, hsummary, -⟩ := ht name q hq
      have hloc := Repository.isLocal_of_summarize hsummary
      rw [loadFrom, henter]
      refine .bind (P := fun entered s' => s' = s ∧ entered = ⟨chain.packages ++ [name]⟩)
        (.pure ⟨rfl, rfl⟩) ?_
      rintro _ s' - ⟨rfl, rfl⟩
      refine .bind (ensures_isResolved name) ?_
      rintro b s - ⟨rfl, hb⟩
      by_cases hres : b = true
      · rw [if_pos hres]
        exact .pure (hb.mp hres)
      rw [if_neg hres, if_pos hloc]
      have hread : Ensures (LoadSteps w.repository) (w.summarized name) s
          (fun p s' => s'.packages.get? name = some p) (LoadFailure w.repository [] name) :=
        w.ensures_summarized hloc
      refine .bind (hread.of_ok ?_) fun p s₁ h₁ hp => ?_
      · rw [summarized, exec_bind, exec_get]
        dsimp only
        cases s.packages.get? name with
        | some p => exact ⟨p, s, rfl⟩
        | none =>
            rw [hsummary]
            exact ⟨summary, { s with packages := s.packages.insert name summary }, rfl⟩
      have hs₁ := h₁.summarized hs
      refine .bind (P := fun _ s' => ∀ d ∈ p.dependencies, s'.Resolved d)
        (.forM (fun d _ _ h => h.extends.resolved) fun d hd s' h' => ?_) fun _ s₂ h₂ hdeps => ?_
      · have hstep : w.repository.DependsOn name d := hs₁.faithful.dependsOn ⟨p, hp, hd⟩
        refine ih (h'.summarized hs₁)
          (hordered.closed name d hname (ht.faithful.dependsOn_of_resolved hname hstep)) ?_ ?_ ?_ ?_
        · exact hnodup.append (List.nodup_singleton name) (by simpa using hnew)
        · intro n hn
          rw [List.mem_append, List.mem_singleton] at hn
          exact hn.elim (hlocal n) fun h => h ▸ hloc
        · intro n hn
          rw [List.mem_append, List.mem_singleton] at hn
          rcases hn with hn | rfl
          · exact (hreach n hn).tail hstep
          · exact .single hstep
        · rw [List.length_append, List.length_singleton]
          omega
      · obtain ⟨q, hq, hpq⟩ := h₂.extends.packages name p hp
        refine w.ensures_resolve hq (fun hbuilt => hres (hb.mpr ?_)) fun d hd => ?_
        · exact (h₁.built (h₂.built hbuilt)).resolved
        · exact hdeps d (hpq.dependencies ▸ hd)

/-! ## Converting -/

/-- A resolved package that foresees its lookups is converted as it is with all packages loaded. -/
theorem convert_loaded (hforesees : w.repository.Foresees name) (hs : s.Summarized w.repository)
    (hordered : s.Ordered) (hname : s.Resolved name) {p : Package}
    (hp : s.packages.get? name = some p) {source : SourceFile} (hsource : source ∈ p.sources) :
    source.convert (w.resolveType s) = source.convert (w.resolveType w.repository.loaded) := by
  obtain ⟨summary, hsummary, hextends⟩ := hs name p hp
  have hloaded : ∀ package, package = name ∨ package ∈ summary.dependencies →
      ∃ q, s.packages.get? package = some q := by
    rintro package (rfl | hdep)
    · exact ⟨p, hp⟩
    · obtain ⟨q, hq, -⟩ := hordered.closed name package hname ⟨p, hp, hextends.dependencies ▸ hdep⟩
      exact ⟨q, hq⟩
  have hbody := hforesees summary hsummary source (hextends.sources ▸ hsource)
  unfold SourceFile.convert
  cases hdocument : source.body with
  | parsed parsed => rfl
  | document d =>
      refine (Document.convert_congr fun target htarget => Conversion.lookup_congr fun _ => ?_).symm
      refine (resolveType_eq hs (Repository.summarized_loaded _) (fun hlocal => ?_) target.schema).symm
      obtain ⟨q, hq⟩ := hloaded _ (hbody d hdocument target htarget hlocal)
      obtain ⟨summary', hsummary', -⟩ := hs _ q hq
      exact ⟨⟨q, hq⟩, summary', Repository.get?_loaded.mpr hsummary'⟩

/-! ## Linking one file -/

/-- What a file of the supply is linked to has its imports. -/
theorem imports_of_linked (hw : w.Steady) (ht : t.Canonical w) (hf : f ∈ w.supply)
    (hfile : f.nameText = file) (hlinked : t.linked.contains file = true) {d : String}
    (hd : d ∈ f.dependencies) : t.Imports file d := by
  obtain ⟨l, hl⟩ := Dict.contains_iff.mp hlinked
  obtain ⟨⟨g, hg, hname, symbols, -, -, hlink⟩, -⟩ := ht.linked file l hl
  obtain rfl := hw.compatible.named f hf g hg (hfile.trans hname.symm)
  exact ⟨l, hl, (Symbols.link_frame hlink).2 ▸ hd⟩

/-- A file that was linked once can be linked at any time behind its imports. -/
theorem linkAlone_again (hw : w.Steady) (ht : t.Canonical w) (hs : s.Canonical w) (hf : f ∈ w.supply)
    (hfile : f.nameText = file) (hlinked : t.linked.contains file = true)
    (himports : ∀ d ∈ f.dependencies, s.linked.contains d = true) :
    ∃ l s', (linkAlone file f).exec s = (.ok l, s') := by
  obtain ⟨l, hl⟩ := Dict.contains_iff.mp hlinked
  obtain ⟨⟨g, hg, hname, symbols, hof, hready, hlink⟩, hcontains⟩ := ht.linked file l hl
  obtain rfl := hw.compatible.named f hf g hg (hfile.trans hname.symm)
  subst hfile
  obtain ⟨symbols', himport⟩ := hs.symbols.exists_importFile hw.compatible hf
    (ht.symbols.nodup f hf hcontains)
  have hgrows := (Symbols.importFile_eq_ok himport).2.1
  have hready' : symbols'.Ready f := by
    refine ⟨(hgrows _).mpr (Or.inl rfl), fun d hd => (hgrows d).mpr (Or.inr ?_)⟩
    obtain ⟨l', hl'⟩ := Dict.contains_iff.mp (himports d hd)
    exact (hs.linked d l' hl').2
  have hlink' := hof.link_again (hs.symbols.importFile hw.compatible hf himport) hw.compatible hf
    hready hready' hlink
  refine ⟨l, { s with symbols := symbols', linked := s.linked.insert f.nameText l }, ?_⟩
  rw [linkAlone, exec_bind, exec_get]
  simp only [himport, exec_bind, exec_modify, hlink', exec_pure]

end Workspace

/-! ## Files of built packages -/

/-- The file is linked, and the package that has it is built, if there is one. -/
structure PackageSet.HasBuilt (t : PackageSet) (r : Repository) (file : String) : Prop where
  linked : t.linked.contains file = true
  package : ∀ name, r.Produces name file → t.Built name

namespace Workspace

section

variable {w : Workspace} {s t : PackageSet} {name file : String} {f : FileDescriptor}
variable (hw : w.Provident) (ht : Calls (· = w) {} t)

include hw ht

/-- What a file imports comes from elsewhere or of a package that is built with its own. -/
theorem hasBuilt_of_import (hf : f ∈ w.supply) (hfile : f.nameText = file)
    (hbuilt : t.HasBuilt w.repository file) {d : String} (hd : d ∈ f.dependencies) :
    t.HasBuilt w.repository d := by
  have hcanonical := ht.canonical hw.steady
  obtain ⟨-, himports, -⟩ := ht.linkedFiles (by rintro _ rfl; exact hw.named)
  refine ⟨himports.closed file d (imports_of_linked hw.steady hcanonical hf hfile hbuilt.linked hd),
    fun other hother => ?_⟩
  obtain ⟨-, ⟨name, hmakes⟩ | houtside⟩ := finds_of_mem_supply hw.named hf
  · have hown : t.Built name := hbuilt.package name (hfile ▸ hw.orderly.produces_of_makes hmakes)
    obtain ⟨p, hp, source, hsource, hconverted⟩ := hmakes
    rcases hw.orderly.package_of_import hp hsource hconverted hd hother with rfl | hneeds
    · exact hown
    · have hdepends := hcanonical.summarized.faithful.dependsOn_of_resolved hown.resolved ⟨p, hp, hneeds⟩
      exact (ht.lifecycle PackageSet.lifecycle_empty).built_closed name other hown hdepends
  · exact absurd hother (hw.foreign _ f houtside d hd other)

theorem hasBuilt_of_produced {p : Package} (hp : t.packages.get? name = some p)
    (hstate : p.state = .built) (hfile : file ∈ p.produced) : t.HasBuilt w.repository file := by
  obtain ⟨-, hlinked⟩ := (ht.lifecycle PackageSet.lifecycle_empty).complete name p hp hstate
  have hown := (ht.canonical hw.steady).summarized.produces hp hfile
  obtain ⟨source, hsource, hfile⟩ := List.mem_flatMap.mp hfile
  refine ⟨hlinked source hsource file hfile, fun other hother => ?_⟩
  rw [hw.orderly.unshared hown hother]
  exact ⟨p, hp, hstate⟩

/-! ## Finding files -/

theorem ensures_load_again {fixed : List String} (hs : s.Canonical w) (hname : t.Resolved name) :
    Ensures (Kept w (canonical w) fixed) (w.load name) s (fun _ s' => s'.Resolved name)
      fun _ _ => False := by
  have hload : Ensures (LoadSteps w.repository) (w.load name) s (fun _ s' => s'.Resolved name)
      fun _ _ => False :=
    ensures_loadFrom_again (ht.canonical hw.steady).summarized
      (ht.lifecycle PackageSet.lifecycle_empty).toOrdered hs.summarized hname List.nodup_nil
      (fun _ h => absurd h List.not_mem_nil) (fun _ h => absurd h List.not_mem_nil) rfl
  exact ((keeps_canonical hw.steady).ensures_load name).with_errors hload.error

theorem ensures_materialize_again (fixed : List String) (hs : s.Canonical w) (hordered : s.Ordered)
    (hbuilt : t.Built name) (hname : s.Resolved name) :
    Ensures (Kept w (canonical w) fixed) (w.materialize name) s
      (fun _ s' => ∃ p, s'.packages.get? name = some p ∧ p.materialized = true)
      fun _ _ => False := by
  refine ((keeps_canonical hw.steady).ensures_materialize name).of_ok ?_
  obtain ⟨p, hp, -⟩ := id hname
  by_cases hm : p.materialized = true
  · exact ⟨(), s, w.exec_materialize_of_marked hp hm⟩
  refine ⟨(), _, w.exec_materialize_of_convertible hp hm fun source hsource => ?_⟩
  have hcanonical := ht.canonical hw.steady
  obtain ⟨q, hq, hstate⟩ := hbuilt
  obtain ⟨hmaterialized, -⟩ := (ht.lifecycle PackageSet.lifecycle_empty).complete name q hq hstate
  obtain ⟨contents, hcontents, hsources⟩ := hs.held.sources name p hp
  obtain ⟨contents', hcontents', hsources'⟩ := hcanonical.held.sources name q hq
  rw [hcontents, Except.ok.injEq] at hcontents'
  have hsame : q.sources = p.sources := by rw [← hsources', ← hcontents', hsources]
  have hconvertible := (hcanonical.held.holds name q hq hmaterialized).convertible source
    (hsame ▸ hsource)
  rw [Convertible, convert_loaded (hw.foresees name) hs.summarized hordered hname hp hsource]
  exact (hconvertible.loaded hcanonical.summarized).1

/-- The files of a local package are found by converting it. -/
theorem ensures_resolveFile_local {fixed : List String} (hs : s.Canonical w) (hlife : s.Lifecycle)
    (hproduces : w.repository.Produces name file) (hbuilt : t.Built name) :
    Ensures (Kept w (canonical w) fixed) (w.resolveFile file) s (fun _ _ => True)
      fun _ _ => False := by
  refine .get ?_
  cases s.files.get? file with
  | some f => exact .pure trivial
  | none =>
      rw [hw.orderly.located name file hproduces]
      refine .bind (P := fun found s' => s' = s ∧ found = (name, true)) (.pure ⟨rfl, rfl⟩) ?_
      rintro _ s - ⟨rfl, rfl⟩
      simp only [if_true]
      refine .bind (ensures_load_again hw ht hs hbuilt.resolved) fun _ s₁ h₁ hres => ?_
      have hs₁ : s₁.Canonical w := h₁.keeps hs
      refine .bind (ensures_materialize_again hw ht fixed hs₁ (h₁.steps.lifecycle hlife).toOrdered
        hbuilt hres) ?_
      rintro _ s₂ h₂ ⟨p, hp, hm⟩
      have hs₂ : s₂.Canonical w := h₂.keeps hs₁
      obtain ⟨contents, hcontents, source, hsource, hfile⟩ := hproduces
      obtain ⟨contents', hcontents', hsources⟩ := hs₂.held.sources name p hp
      rw [hcontents, Except.ok.injEq] at hcontents'
      obtain ⟨g, hg⟩ := (hs₂.held.holds name p hp hm).contains (hsources ▸ hcontents' ▸ hsource)
        (hw.orderly.genuine name contents hcontents source hsource) hfile
      refine .get ?_
      simp only [hg]
      exact .pure trivial

omit ht in
theorem ensures_resolveFile_outside {fixed : List String} (hs : s.Canonical w)
    (houtside : w.outside? file = some f) :
    Ensures (Kept w (canonical w) fixed) (w.resolveFile file) s (fun _ _ => True)
      fun _ _ => False := by
  obtain ⟨⟨package, hpackage⟩, hforeign⟩ := outside?_eq_some.mp houtside
  refine (((keeps_canonical hw.steady).ensures_resolveFile file hs).imp (fun _ h => h)
    (fun _ _ _ _ => trivial) fun _ _ _ h => h).of_ok ?_
  rw [resolveFile, exec_bind, exec_get]
  dsimp only
  cases s.files.get? file with
  | some f => exact ⟨f, s, rfl⟩
  | none =>
      have hfound := w.exec_foreignFile file s
      rw [hforeign] at hfound
      rw [hpackage]
      exact ⟨f, { s with files := s.files.insert file f }, hfound⟩

theorem ensures_resolveFile_again (fixed : List String) (hs : s.Canonical w) (hlife : s.Lifecycle)
    (hbuilt : t.HasBuilt w.repository file) :
    Ensures (Kept w (canonical w) fixed) (w.resolveFile file) s (fun _ _ => True)
      fun _ _ => False := by
  obtain ⟨l, hl⟩ := Dict.contains_iff.mp hbuilt.linked
  obtain ⟨⟨f, hf, rfl, -⟩, -⟩ := (ht.canonical hw.steady).linked file l hl
  obtain ⟨-, ⟨name, hmakes⟩ | houtside⟩ := finds_of_mem_supply hw.named hf
  · have hproduces := hw.orderly.produces_of_makes hmakes
    exact ensures_resolveFile_local hw ht hs hlife hproduces (hbuilt.package name hproduces)
  · exact ensures_resolveFile_outside hw hs houtside

/-! ## Linking -/

/-- The files being linked all lead to the one at hand, so it is none of them. -/
theorem ensures_linkFrom_again {depth : Nat} (hs : s.Canonical w) (hlife : s.Lifecycle)
    (hbuilt : t.HasBuilt w.repository file) (hstack : w.Stack s.linking file)
    (hreach : ∀ k ∈ s.linking, TransGen t.Imports k file)
    (hdepth : w.fileNames.length < depth + s.linking.length) :
    Ensures (Kept w (canonical w) s.linking) (w.linkFrom depth file) s
      (fun linked s' => s'.linked.get? file = some linked) fun _ _ => False := by
  have hkeeps := keeps_canonical hw.steady
  have hcanonical := ht.canonical hw.steady
  obtain ⟨-, himports, -⟩ := ht.linkedFiles (by rintro _ rfl; exact hw.named)
  induction depth generalizing file s with
  | zero =>
      have hle := hstack.length_le
      omega
  | succ depth ih =>
      have hin : file ∉ s.linking := fun hin => himports.acyclic file (hreach file hin)
      rw [linkFrom]
      refine .get ?_
      cases hnew : s.linked.get? file with
      | some linked => exact .pure hnew
      | none =>
          refine .get ?_
          simp only [List.contains_iff_mem, hin, if_false]
          refine .bind ((hkeeps.ensures_resolveFile_new hs hnew).with_errors
            (ensures_resolveFile_again hw ht [] hs hlife hbuilt).error) ?_
          rintro f s₁ h₁ ⟨⟨hf, hfile⟩, hnew₁⟩
          have hs₁ : s₁.Canonical w := h₁.keeps hs
          have hnote : Step w s₁ { s₁ with linking := s₁.linking ++ [file] } := .note rfl rfl rfl
          have hlife₁ := hnote.lifecycle (h₁.steps.lifecycle hlife)
          refine hkeeps.ensures_whileLinking ?_ fun _ _ _ h => h
          refine .bind (Keeps.ensures_imports (hkeeps.linking hs₁) (by rw [h₁.linking]) hnew₁
            fun d hd s' hk hs' hlinking => ?_) ?_
          · have hstep := imports_of_linked hw.steady hcanonical hf hfile hbuilt.linked hd
            refine ih hs' (hk.steps.lifecycle hlife₁) (hasBuilt_of_import hw ht hf hfile hbuilt hd)
              (hlinking ▸ hstack.enter hin (hfile ▸ finds_of_mem_supply hw.named hf) hd)
              (fun k hk => ?_) ?_
            · rw [hlinking, List.mem_append, List.mem_singleton] at hk
              rcases hk with hk | rfl
              · exact (hreach k hk).tail hstep
              · exact .single hstep
            · rw [hlinking, List.length_append, List.length_singleton]
              omega
          · rintro _ s₂ h₂ ⟨hnew₂, hlinked⟩
            refine (hkeeps.ensures_linkAlone hin ⟨hf, hfile⟩ hnew₂ hlinked).of_ok ?_
            exact linkAlone_again hw.steady hcanonical (h₂.keeps (hkeeps.linking hs₁)) hf hfile
              hbuilt.linked hlinked

theorem ensures_link_again (hs : s.Canonical w) (hlife : s.Lifecycle) (hlinking : s.linking = [])
    (hbuilt : t.HasBuilt w.repository file) :
    Ensures (Kept w (canonical w) []) (w.link file) s
      (fun linked s' => s'.linked.get? file = some linked) fun _ _ => False := by
  have hlink : Ensures (Kept w (canonical w) s.linking) (w.link file) s
      (fun linked s' => s'.linked.get? file = some linked) fun _ _ => False := by
    refine ensures_linkFrom_again hw ht hs hlife hbuilt (hlinking ▸ Stack.start file) ?_ (by omega)
    rw [hlinking]
    exact fun _ h => absurd h List.not_mem_nil
  rwa [hlinking] at hlink

/-! ## Building -/

/-- The induction is on how deep the dependencies of the package went where it was built. -/
theorem ensures_build_again {depth : Nat} (hshallow : t.Shallow depth name) (hbuilt : t.Built name)
    (hs : s.Canonical w) (hlife : s.Lifecycle) (hlinking : s.linking = [])
    (hname : s.Resolved name) :
    Ensures (Kept w (canonical w) []) (w.build name) s
      (fun _ s' => s'.built.contains name = true) fun _ _ => False := by
  induction depth generalizing name s with
  | zero => exact absurd hshallow PackageSet.not_shallow_zero
  | succ depth ih =>
      obtain ⟨p, hp, -⟩ := id hname
      obtain ⟨q, hq, hstate⟩ := id hbuilt
      -- Both sets have the package as it was summarized.
      obtain ⟨summary, hsummary, hextends⟩ := hs.summarized name p hp
      obtain ⟨summary', hsummary', hextends'⟩ := (ht.canonical hw.steady).summarized name q hq
      rw [hsummary, Except.ok.injEq] at hsummary'
      subst hsummary'
      have hdeps : Ensures (Kept w (canonical w) []) (p.dependencies.mapM w.build) s
          (fun _ s' => ∀ d ∈ p.dependencies, s'.built.contains d = true) fun _ _ => False := by
        refine .mapM (fun d _ _ hk => hk.extends.built d) fun d hd s' hk => ?_
        have hneed : t.DependsOn name d :=
          ⟨q, hq, by rwa [hextends'.dependencies, ← hextends.dependencies]⟩
        have hbuilt' : t.Built d :=
          (ht.lifecycle PackageSet.lifecycle_empty).built_closed name d hbuilt hneed
        exact ih (hshallow.dependency hneed) hbuilt' (hk.keeps hs) (hk.steps.lifecycle hlife)
          (hk.linking.trans hlinking)
          (hk.extends.resolved (hlife.closed name d hname ⟨p, hp, hd⟩))
      obtain ⟨deps, s₁, hexec₁, h₁, -⟩ := hdeps.exists_ok
      have hs₁ : s₁.Canonical w := h₁.keeps hs
      have hlife₁ := h₁.steps.lifecycle hlife
      obtain ⟨_, s₂, hexec₂, h₂, -⟩ := (ensures_materialize_again hw ht [] hs₁ hlife₁.toOrdered hbuilt
        (h₁.extends.resolved hname)).exists_ok
      have hs₂ : s₂.Canonical w := h₂.keeps hs₁
      have hfiles : Ensures (Kept w (canonical w) []) (p.produced.mapM w.link) s₂
          (fun files s' => List.Forall₂ (fun file l => s'.linked.get? file = some l) p.produced files)
          fun _ _ => False := by
        refine .mapM_results (fun file l _ _ hk => hk.extends.linked file l) fun file hfile s' hk => ?_
        refine ensures_link_again hw ht (hk.keeps hs₂)
          (hk.steps.lifecycle (h₂.steps.lifecycle hlife₁))
          (hk.linking.trans (h₂.linking.trans (h₁.linking.trans hlinking)))
          (hasBuilt_of_produced hw ht hq hstate ?_)
        rwa [hextends'.produced_eq, ← hextends.produced_eq]
      obtain ⟨files, s₃, hexec₃, -⟩ := hfiles.exists_ok
      have hok := (w.build_eq_ok_iff hlife hname hp).mpr
        ⟨deps, s₁, s₂, files, s₃, hexec₁, hexec₂, hexec₃⟩
      refine (((keeps_canonical hw.steady).ensures_build name hs).of_ok hok).imp (fun _ h => h)
        (fun b s' _ hb => ?_) fun _ _ _ h => h
      exact Dict.contains_iff.mpr ⟨b, hb⟩

theorem ensures_compile_again (hs : Calls (· = w) {} s) (hbuilt : t.Built name) :
    Ensures (Kept w (canonical w) []) (w.compile name) s
      (fun _ s' => s'.built.contains name = true) fun _ _ => False := by
  have hs' := hs.canonical hw.steady
  have hordered := (ht.lifecycle PackageSet.lifecycle_empty).toOrdered
  refine .bind (ensures_load_again hw ht hs' hbuilt.resolved) fun _ s₁ h₁ hres => ?_
  exact ensures_build_again hw ht (hordered.shallow hbuilt.resolved (Nat.le_refl _)) hbuilt
    (h₁.keeps hs') (h₁.steps.lifecycle (hs.lifecycle PackageSet.lifecycle_empty))
    (h₁.linking.trans hs.linking) hres

end

/-! ## Compiling after other calls -/

variable {w : Workspace} {s t : PackageSet}

/-- In a steady workspace all builds of a package agree, whatever was called before each. -/
theorem Steady.compile_unique {s' t' : PackageSet} (hw : w.Steady) (hs : Calls (· = w) {} s)
    (hs' : Calls (· = w) {} s') {name : String} {b b' : BuiltPackage}
    (h : (w.compile name).exec s = (.ok b, t)) (h' : (w.compile name).exec s' = (.ok b', t')) :
    b = b' := by
  have hbuilt : ∀ {a c : PackageSet} {b : BuiltPackage}, Calls (· = w) {} a →
      (w.compile name).exec a = (.ok b, c) → b.name = name ∧ w.Yields b := by
    intro a c b ha hexec
    have hcanonical := ha.canonical hw
    obtain ⟨hmoves, hok, -⟩ := (keeps_canonical hw).ensures_compile name hcanonical
    rw [hexec] at hmoves hok
    exact (hmoves.keeps hcanonical).built name b (hok b rfl)
  obtain ⟨hname, hyields⟩ := hbuilt hs h
  obtain ⟨hname', hyields'⟩ := hbuilt hs' h'
  exact hw.yields_unique hyields hyields' (hname.trans hname'.symm)

/-- What comes of compiling a package is built in the package set that is left. -/
theorem built_of_compile (ht : Calls (· = w) {} t) {name : String} {b : BuiltPackage}
    {t' : PackageSet} (h : (w.compile name).exec t = (.ok b, t')) :
    Calls (· = w) {} t' ∧ t'.Built name := by
  have ht' : Calls (· = w) {} t' := .tail ht ⟨w, rfl, .compile name, by rw [Call.after, h]⟩
  refine ⟨ht', ((ht'.lifecycle PackageSet.lifecycle_empty).built_iff name).mpr ?_⟩
  have hcached := (w.keeps_trivial.ensures_compile (s := t) name trivial).ok b
  rw [h] at hcached
  exact Dict.contains_iff.mpr ⟨b, hcached rfl⟩

/-- In a provident workspace what was called before decides neither whether a package compiles nor what
it compiles to. -/
theorem Provident.compile_iff (hw : w.Provident) (hs : Calls (· = w) {} s) (ht : Calls (· = w) {} t)
    (name : String) (b : BuiltPackage) :
    (∃ s', (w.compile name).exec s = (.ok b, s')) ↔ ∃ t', (w.compile name).exec t = (.ok b, t') := by
  have hagain : ∀ {s t : PackageSet}, Calls (· = w) {} s → Calls (· = w) {} t →
      (∃ t', (w.compile name).exec t = (.ok b, t')) →
      ∃ s', (w.compile name).exec s = (.ok b, s') := by
    rintro s t hs ht ⟨t', hexec⟩
    obtain ⟨ht', hbuilt⟩ := built_of_compile ht hexec
    obtain ⟨b', s', hexec', -⟩ := (ensures_compile_again hw ht' hs hbuilt).exists_ok
    exact ⟨s', by rw [hexec', hw.steady.compile_unique hs ht hexec' hexec]⟩
  exact ⟨hagain ht hs, hagain hs ht⟩

/-- Packages `a.v1`, in which an object is a member of a polymorph of `b.v1`, and `b.v1`. -/
def polymorphPackages (properties : List PropertyDecl) : Workspace where
  repository :=
    { packages := .ofList
        [("a.v1", .ok { sources := (SourceFile.ofDocument
            { path := "a/v1/a.j5s", package := "a.v1"
              elements := [.object { name := "Foo", properties, polymorphMember := ["b.v1.Poly"] }] }
            none).toOption.toList }),
         ("b.v1", .ok { sources := (SourceFile.ofDocument
            { path := "b/v1/b.j5s", package := "b.v1"
              elements := [.polymorph { name := "Poly", members := ["a.v1.Foo"] }] }
            none).toOption.toList })] }
  catalog := [Catalog.optionsDescriptor, Catalog.schemaOptions, Catalog.any].foldl Catalog.insert {}

theorem document_of_polymorphPackages {properties : List PropertyDecl} {name : String}
    {contents : PackageContents}
    (h : (polymorphPackages properties).repository.contents name = .ok contents) {source : SourceFile}
    (hsource : source ∈ contents.sources) :
    ∃ d, SourceFile.ofDocument d none = .ok source ∧ d.package = name := by
  have hread : ∀ d, source ∈ (SourceFile.ofDocument d none).toOption.toList →
      SourceFile.ofDocument d none = .ok source := by
    intro d hmem
    rw [Option.mem_toList] at hmem
    cases hd : SourceFile.ofDocument d none with
    | ok other =>
        rw [hd] at hmem
        cases hmem
        rfl
    | error errors =>
        rw [hd] at hmem
        cases hmem
  rcases List.mem_cons.mp (Repository.mem_entries_of_contents h) with heq | hmem
  · cases heq
    dsimp only at hsource
    exact ⟨_, hread _ hsource, rfl⟩
  · cases List.mem_singleton.mp hmem
    dsimp only at hsource
    exact ⟨_, hread _ hsource, rfl⟩

/-- A field of the object names the polymorph too. -/
def namedPolymorph : Workspace :=
  polymorphPackages [{ name := "poly", schema := .polymorph (.named ⟨some "b.v1", "Poly"⟩) }]

theorem orderly_namedPolymorph : namedPolymorph.Orderly where
  genuine name contents h source hsource := by
    obtain ⟨d, hd, -⟩ := document_of_polymorphPackages h hsource
    exact Or.inl ⟨d, none, hd⟩
  homed name contents h source hsource d hbody := by
    obtain ⟨d', hd, hpackage⟩ := document_of_polymorphPackages h hsource
    rw [(SourceFile.summary_of_ofDocument hd).1] at hbody
    cases hbody
    exact hpackage
  located name file h := by
    have hall : ∀ entry ∈ namedPolymorph.repository.products,
        FileName.packageFor entry.2 = entry.1 ∧
          namedPolymorph.repository.isLocal entry.1 = true := by decide +kernel
    obtain ⟨hpackage, hlocal⟩ := hall _ (Repository.mem_products h)
    show Except.ok (FileName.packageFor file,
      namedPolymorph.repository.isLocal (FileName.packageFor file)) = _
    rw [hpackage, hlocal]
  ordinary name hlocal := by
    have hall : ∀ name ∈ namedPolymorph.repository.list, WellKnown.isPackage name = false := by
      decide +kernel
    exact hall name (Dict.mem_keys hlocal)
  apart name file h := by
    have hall : ∀ entry ∈ namedPolymorph.repository.products, entry.2 ∉ Catalog.standardNames ∧
        ∀ f ∈ namedPolymorph.catalog.files.values, f.nameText ≠ entry.2 := by decide +kernel
    obtain ⟨hstandard, hcatalog⟩ := hall _ (Repository.mem_products h)
    exact ⟨hstandard, fun package f hf => hcatalog f (List.mem_filter.mp hf).1⟩

theorem provident_namedPolymorph : namedPolymorph.Provident where
  named :=
    { dependencies := fun d hd => absurd hd List.not_mem_nil
      catalog := fun file f hf => by
        have hall : ∀ entry ∈ namedPolymorph.catalog.files.entries, entry.2.nameText = entry.1 := by
          decide +kernel
        exact hall _ (Dict.mem_entries hf) }
  orderly := orderly_namedPolymorph
  compatible := .of_unambiguous (by decide +kernel) (unambiguous_iff.mpr (by decide +kernel))
    (by decide +kernel)
  foresees name := by
    have hall : ∀ name ∈ namedPolymorph.repository.list,
        namedPolymorph.repository.Foresees name := by decide +kernel
    exact fun p hp => hall name (Dict.mem_keys (Repository.isLocal_of_summarize hp)) p hp
  foreign file f houtside d hd name hproduces := by
    have hall : ∀ entry ∈ namedPolymorph.catalog.files.entries, ∀ d ∈ entry.2.dependencies,
        ∀ product ∈ namedPolymorph.repository.products, product.2 ≠ d := by decide +kernel
    have hforeign : namedPolymorph.catalog.get? file = some f := by
      injection (outside?_eq_some.mp houtside).2
    exact hall _ (Dict.mem_entries hforeign) d hd _ (Repository.mem_products hproduces) rfl

/-- The call in between fails, since there is no `c.v1`. -/
theorem compile_iff_namedPolymorph : namedPolymorph.Provident ∧
    ∃ b, (∃ s, (namedPolymorph.compile "a.v1").exec {} = (.ok b, s)) ∧
      (b.files.flatMap fun l => l.descriptor.messages.flatMap fun m =>
        m.fields.map FieldDescriptor.typeName) = [some ".b.v1.Poly"] ∧
      ∃ s, (namedPolymorph.compile "a.v1").exec
        (Call.after namedPolymorph {} (.buildOrder ["b.v1", "c.v1"])) = (.ok b, s) := by
  have hcall : Calls (· = namedPolymorph) {}
      (Call.after namedPolymorph {} (.buildOrder ["b.v1", "c.v1"])) :=
    .single ⟨namedPolymorph, rfl, _, rfl⟩
  have htypes : ((namedPolymorph.compile "a.v1").exec {}).1.toOption.map (fun b =>
      b.files.flatMap fun l => l.descriptor.messages.flatMap fun m =>
        m.fields.map FieldDescriptor.typeName) = some [some ".b.v1.Poly"] := by decide +kernel
  rcases hfresh : (namedPolymorph.compile "a.v1").exec {} with ⟨e | b, s⟩
  · rw [hfresh] at htypes
    cases htypes
  · rw [hfresh] at htypes
    exact ⟨provident_namedPolymorph, b, ⟨s, rfl⟩, Option.some.inj htypes,
      (provident_namedPolymorph.compile_iff .refl hcall "a.v1" b).mp ⟨s, hfresh⟩⟩

/-! ## Compiling that depends on other calls -/

/-- Whether the package compiles, or what it compiles to, is not the same after some calls as at
first. -/
def DependsOnCalls (w : Workspace) (name : String) : Prop :=
  ∃ s b, Calls (· = w) {} s ∧
    ¬ ((∃ s', (w.compile name).exec s = (.ok b, s')) ↔ ∃ s', (w.compile name).exec {} = (.ok b, s'))

theorem dependsOnCalls_of_call (call : Call) {name : String}
    (h : ((w.compile name).exec (call.after w {})).1.toOption.isSome ≠
      ((w.compile name).exec {}).1.toOption.isSome) : w.DependsOnCalls name := by
  have hcall : Calls (· = w) {} (call.after w {}) := .single ⟨w, rfl, call, rfl⟩
  rcases hafter : (w.compile name).exec (call.after w {}) with ⟨e | b, s'⟩
  all_goals rcases hfirst : (w.compile name).exec {} with ⟨e' | b', s''⟩
  all_goals rw [hafter, hfirst] at h
  · exact absurd rfl h
  · refine ⟨_, b', hcall, fun hiff => ?_⟩
    obtain ⟨_, hok⟩ := hiff.mpr ⟨s'', hfirst⟩
    rw [hafter] at hok
    cases hok
  · refine ⟨_, b, hcall, fun hiff => ?_⟩
    obtain ⟨_, hok⟩ := hiff.mp ⟨s', hafter⟩
    rw [hfirst] at hok
    cases hok
  · exact absurd rfl h

/-- Only the membership names the polymorph. -/
def hiddenPolymorph : Workspace := polymorphPackages []

/-- `p.v1` uses a type of `q.v1` by its short name.  Where that name is looked for first, `r.v1` has a type
too. -/
def shadowedType : Workspace where
  repository :=
    { packages := .ofList
        [("p.v1", .ok { sources := [.ofParsed
            ⟨{ name := some "p/v1/p.proto", package := some "p.v1", dependencies := ["q/v1/q.proto"]
               messages :=
                 [{ name := some "M"
                    fields := [{ name := some "x", number := some 1, typeName := some "X" }] }] }, {}⟩
            none] }),
         ("q.v1", .ok { sources := [.ofParsed
            ⟨{ name := some "q/v1/q.proto", package := some "p", messages := [{ name := some "X" }] }, {}⟩
            none] }),
         ("r.v1", .ok { sources := [.ofParsed
            ⟨{ name := some "r/v1/r.proto", package := some "p.v1"
               messages := [{ name := some "X" }] }, {}⟩ none] })] }
  catalog := {}

/-- A package that is loaded by chance can be what another compiles with, and a file that is linked by
chance can be what another does not compile with.  No name is declared twice. -/
theorem compile_depends_on_calls :
    ((hiddenPolymorph.supply.flatMap Declared.names).map Prod.fst).Nodup ∧
    hiddenPolymorph.DependsOnCalls "a.v1" ∧
    ((shadowedType.supply.flatMap Declared.names).map Prod.fst).Nodup ∧
    shadowedType.DependsOnCalls "p.v1" :=
  ⟨by decide +kernel, dependsOnCalls_of_call (.buildOrder ["b.v1"]) (by decide +kernel),
    by decide +kernel, dependsOnCalls_of_call (.compile "r.v1") (by decide +kernel)⟩

end Workspace
end Schematic
