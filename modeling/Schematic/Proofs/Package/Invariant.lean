import Schematic.Package.Lint
import Schematic.Proofs.Package.Load

/-!
# What every call keeps

Whether a call succeeds or fails, the package set it leaves is reached by steps, and the
files that were being linked before the call are those being linked after it.  While a
file is being linked nobody else links it.

To show that something holds of a package set after every call it is enough to show that
each way in which a package set changes keeps it.  `Workspace.Keeps` lists these ways, each
with all that is known at that time, and the rest of the module goes through the calls once and
for all.  That a call is a run of steps is the case of an invariant that always holds.

An `Invariant` has three parts: what holds of the package set, of every file found
under a name, and of every package built.  A file stays in use while the files it imports are
looked for, so what is known of it must not depend on the package set.
-/

namespace Schematic

open Relation BuildM

/-! ## Runs of steps -/

/-- `s'` is reached from `s` by steps that leave alone the files being linked and what is
known of the files in `fixed`. -/
structure Evolves (w : Workspace) (fixed : List String) (s s' : PackageSet) : Prop where
  steps : Steps w s s'
  linking : s'.linking = s.linking
  fixed : ∀ file ∈ fixed, s'.linked.get? file = s.linked.get? file

namespace Evolves

variable {w : Workspace} {fixed : List String} {s s' : PackageSet}

instance : Std.Refl (Evolves w fixed) :=
  ⟨fun _ => ⟨ReflTransGen.refl, rfl, fun _ _ => rfl⟩⟩

instance : IsTrans PackageSet (Evolves w fixed) :=
  ⟨fun _ _ _ h h' => ⟨h.steps.trans h'.steps, h'.linking.trans h.linking,
    fun file hf => (h'.fixed file hf).trans (h.fixed file hf)⟩⟩

theorem weaken {fewer : List String} (hsub : fewer ⊆ fixed) (h : Evolves w fixed s s') :
    Evolves w fewer s s' :=
  ⟨h.steps, h.linking, fun file hf => h.fixed file (hsub hf)⟩

theorem of_update {name : String} {f : Package → Package} (h : Step w s (s.update name f)) :
    Evolves w fixed s (s.update name f) :=
  ⟨.single h, s.linking_update name f, fun _ _ => by rw [s.linked_update name f]⟩

/-- Steps that note something neither about packages nor about linked files. -/
theorem note (hpackages : s'.packages = s.packages) (hbuilt : s'.built = s.built)
    (hlinked : s'.linked = s.linked) (hlinking : s'.linking = s.linking) :
    Evolves w fixed s s' :=
  ⟨.single (.note hpackages hbuilt hlinked), hlinking, fun _ _ => by rw [hlinked]⟩

end Evolves

theorem Evolves.extends {w : Workspace} {fixed : List String} {s s' : PackageSet}
    (h : Evolves w fixed s s') : s.Extends s' :=
  h.steps.extends

theorem LoadSteps.evolves {w : Workspace} {fixed : List String} {s s' : PackageSet}
    (h : LoadSteps w.repository s s') : Evolves w fixed s s' := by
  induction h with
  | refl => exact refl s
  | @tail s₁ s₂ _ hstep ih =>
      refine IsTrans.trans s s₁ s₂ ih ?_
      cases hstep with
      | summarize hnew hlocal hp =>
          exact ⟨.single (.load (.summarize hnew hlocal hp)), rfl, fun _ _ => rfl⟩
      | resolve hp hstate hdeps => exact .of_update (.load (.resolve hp hstate hdeps))

theorem exists_of_forall₂ {α β : Type} {r : α → β → Prop} {as : List α} {bs : List β}
    (h : List.Forall₂ r as bs) {a : α} (ha : a ∈ as) : ∃ b ∈ bs, r a b := by
  induction h with
  | nil => cases ha
  | @cons a' b as bs hab _ ih =>
      rcases List.mem_cons.mp ha with rfl | ha
      · exact ⟨b, List.mem_cons_self, hab⟩
      · obtain ⟨b', hb', hr⟩ := ih ha
        exact ⟨b', List.mem_cons_of_mem b hb', hr⟩

namespace Workspace

variable (w : Workspace)

/-! ## Converting -/

/-- What a source is converted to, nothing if that fails. -/
def converted (s : PackageSet) (source : SourceFile) : List FileDescriptor :=
  match source.convert (w.resolveType s) with
  | .ok files => files
  | .error _ => []

def Convertible (s : PackageSet) (source : SourceFile) : Prop :=
  ∃ files, source.convert (w.resolveType s) = .ok files

theorem Convertible.convert {w : Workspace} {s : PackageSet} {source : SourceFile}
    (h : w.Convertible s source) : source.convert (w.resolveType s) = .ok (w.converted s source) := by
  obtain ⟨files, hfiles⟩ := h
  rw [converted, hfiles]

/-- What is noted of a source when its package is linted. -/
def linted (s : PackageSet) (source : SourceFile) : LintedSource :=
  match source.convert (w.resolveType s) with
  | .ok files => { source, files := files.map FileDescriptor.nameText }
  | .error errors => { source, errors }

theorem addFiles_append (s : PackageSet) (a b : List FileDescriptor) :
    (s.addFiles a).addFiles b = s.addFiles (a ++ b) := by
  simp only [PackageSet.addFiles, Dict.insertAll, List.map_append, List.foldl_append]

theorem exec_materializeSource_ok {s : PackageSet} {source : SourceFile}
    (h : w.Convertible s source) :
    (w.materializeSource source).exec s = (.ok (), s.addFiles (w.converted s source)) := by
  rw [materializeSource, exec_bind, exec_get]
  simp only [h.convert, exec_modify]

theorem exec_materializeSources {s : PackageSet} {sources : List SourceFile}
    (h : ∀ source ∈ sources, w.Convertible s source) :
    (sources.forM w.materializeSource).exec s =
      (.ok (), s.addFiles (sources.flatMap (w.converted s))) := by
  induction sources generalizing s with
  | nil => rfl
  | cons source rest ih =>
      have hrest := ih (s := s.addFiles (w.converted s source))
        fun source' h' => h source' (List.mem_cons_of_mem source h')
      have hstep : ((source :: rest).forM w.materializeSource).exec s =
          (rest.forM w.materializeSource).exec (s.addFiles (w.converted s source)) := by
        rw [exec_forM_cons, w.exec_materializeSource_ok (h source List.mem_cons_self)]
      rw [hstep, hrest, addFiles_append, List.flatMap_cons]
      rfl

/-- The sources before the first that cannot be converted are converted all the same. -/
theorem exec_materializeSources_error {s : PackageSet} {sources : List SourceFile}
    (h : ¬ ∀ source ∈ sources, w.Convertible s source) :
    ∃ done e, done ⊆ sources ∧ (sources.forM w.materializeSource).exec s =
      (.error e, s.addFiles (done.flatMap (w.converted s))) := by
  induction sources generalizing s with
  | nil => exact absurd (fun _ h => absurd h List.not_mem_nil) h
  | cons source rest ih =>
      by_cases hsource : w.Convertible s source
      · have hrest : ¬ ∀ source' ∈ rest, w.Convertible (s.addFiles (w.converted s source)) source' := by
          refine fun hall => h fun source' h' => ?_
          rcases List.mem_cons.mp h' with rfl | h'
          · exact hsource
          · exact hall source' h'
        obtain ⟨done, e, hdone, hexec⟩ := ih hrest
        refine ⟨source :: done, e, List.cons_subset_cons source hdone, ?_⟩
        rw [exec_forM_cons, w.exec_materializeSource_ok hsource]
        dsimp only
        rw [hexec, addFiles_append, List.flatMap_cons]
        rfl
      · refine ⟨[], ?_⟩
        cases hconv : source.convert (w.resolveType s) with
        | ok files => exact absurd ⟨files, hconv⟩ hsource
        | error errors =>
            refine ⟨.source source.name errors, List.nil_subset _, ?_⟩
            rw [exec_forM_cons, materializeSource, exec_bind, exec_get]
            simp only [hconv]
            rfl

theorem exec_lintSource (s : PackageSet) (source : SourceFile) :
    (w.lintSource source).exec s = (.ok (w.linted s source), s.addFiles (w.converted s source)) := by
  rw [lintSource, exec_bind, exec_get, linted, converted]
  cases hconv : source.convert (w.resolveType s) with
  | ok files => simp only [hconv, exec_bind, exec_modify, exec_pure]
  | error errors => simp only [hconv, exec_pure]; rfl

theorem exec_lintSources (s : PackageSet) (sources : List SourceFile) :
    (sources.mapM w.lintSource).exec s =
      (.ok (sources.map (w.linted s)), s.addFiles (sources.flatMap (w.converted s))) := by
  induction sources generalizing s with
  | nil => rfl
  | cons source rest ih =>
      have hrest := ih (s.addFiles (w.converted s source))
      rw [List.mapM_cons, exec_bind, w.exec_lintSource]
      dsimp only
      rw [exec_bind, hrest, addFiles_append, List.flatMap_cons]
      rfl

/-- What was put under a name last is there already. -/
theorem get?_addFiles_twice (s : PackageSet) (files : List FileDescriptor) (k : String) :
    ((s.addFiles files).addFiles files).files.get? k = (s.addFiles files).files.get? k := by
  simp only [PackageSet.addFiles, Dict.get?_insertAll]
  cases (files.map fun f => (f.nameText, f)).reverse.lookup k <;> rfl

/-! ## Foreign files -/

/-- What a file that no local package has is found to be. -/
def foreign? (file : String) : Except BuildError (Option FileDescriptor) := do
  match ← dependencyFile file w.dependencies with
  | some f => return some f
  | none => return w.catalog.get? file

theorem exec_foreignFile (file : String) (s : PackageSet) :
    (w.foreignFile file).exec s =
      match w.foreign? file with
      | .ok (some f) => (.ok f, { s with files := s.files.insert file f })
      | .ok none => (.error (.fileNotFound file), s)
      | .error e => (.error e, s) := by
  rw [foreignFile, foreign?, exec_bind]
  rcases dependencyFile file w.dependencies with e | _ | f
  · rfl
  · simp only [BuildM.lift, Bind.bind, Except.bind, pure, Except.pure]
    cases w.catalog.get? file <;> rfl
  · rfl

/-! ## Single steps -/

variable {fixed : List String} {s : PackageSet}

theorem ensures_package {R : PackageSet → PackageSet → Prop} [Std.Refl R] (name : String) :
    Ensures R (package name) s (fun p s' => s' = s ∧ s.packages.get? name = some p)
      fun e _ => e = .packageNotFound name ∧ s.packages.get? name = none := by
  refine .get ?_
  cases hp : s.packages.get? name with
  | some p => exact .pure ⟨rfl, rfl⟩
  | none => exact .throw ⟨rfl, rfl⟩

theorem evolves_addFiles (files : List FileDescriptor) :
    Evolves w fixed s (s.addFiles files) :=
  .note rfl rfl rfl rfl

theorem exec_whileLinking {α : Type} (file : String) (step : BuildM α) (s : PackageSet) :
    (whileLinking file step).exec s =
      ((step.exec { s with linking := s.linking ++ [file] }).1,
        { (step.exec { s with linking := s.linking ++ [file] }).2 with
          linking := (step.exec { s with linking := s.linking ++ [file] }).2.linking.dropLast }) := by
  rw [whileLinking, exec_bind, exec_modify]
  simp only [exec_bind, exec_attempt, exec_modify]
  rcases (step.exec { s with linking := s.linking ++ [file] }).1 with e | a <;> rfl

end Workspace

/-! ## Invariants -/

/-- What is held to be true of a package set, of the files found under names, and of the packages
built under names. -/
structure Invariant where
  set : PackageSet → Prop
  file : String → FileDescriptor → Prop
  package : PackageSet → String → BuiltPackage → Prop

/-- Every way in which a package set changes keeps an invariant. -/
structure Workspace.Keeps (w : Workspace) (inv : Invariant) : Prop where
  found : ∀ {s : PackageSet} {file f}, inv.set s → s.files.get? file = some f → inv.file file f
  cached : ∀ {s : PackageSet} {name b}, inv.set s → s.built.get? name = some b →
    inv.package s name b
  lasts : ∀ {s s' : PackageSet} {name b}, s.Extends s' → inv.package s name b →
    inv.package s' name b
  load : ∀ {s s' : PackageSet}, LoadStep w.repository s s' → inv.set s → inv.set s'
  /-- Some sources of a package are converted, and all of them if that can be done. -/
  convert : ∀ {s : PackageSet} {name p sources}, s.packages.get? name = some p →
    sources ⊆ p.sources →
    ((∀ source ∈ p.sources, w.Convertible s source) → sources = p.sources) →
    inv.set s → inv.set (s.addFiles (sources.flatMap (w.converted s)))
  materialize : ∀ {s : PackageSet} {name p}, s.packages.get? name = some p →
    (∀ source ∈ p.sources, w.Convertible s source) →
    (∀ k, (s.addFiles (p.sources.flatMap (w.converted s))).files.get? k = s.files.get? k) →
    inv.set s → inv.set (s.update name fun p => { p with materialized := true })
  foreign : ∀ {s : PackageSet} {file package f}, s.files.get? file = none →
    w.repository.packageOf file = .ok (package, false) → w.foreign? file = .ok (some f) →
    inv.set s → inv.set { s with files := s.files.insert file f }
  declare : ∀ {s : PackageSet} {file f symbols}, inv.file file f → s.linked.get? file = none →
    (∀ d ∈ f.dependencies, s.linked.contains d = true) → s.symbols.importFile f = .ok symbols →
    inv.set s → inv.set { s with symbols }
  link : ∀ {s : PackageSet} {file f symbols linked}, inv.file file f → s.linked.get? file = none →
    (∀ d ∈ f.dependencies, s.linked.contains d = true) → s.symbols.importFile f = .ok symbols →
    symbols.link f = .ok linked → inv.set { s with symbols } →
    inv.set { s with symbols, linked := s.linked.insert file linked }
  build : ∀ {s : PackageSet} {name p files dependencies}, s.packages.get? name = some p →
    p.materialized = true → List.Forall₂ (inv.package s) p.dependencies dependencies →
    List.Forall₂ (fun file l => s.linked.get? file = some l)
      (p.sources.flatMap fun source => source.summary.produces) files → inv.set s →
    inv.set { s.update name fun p => { p with state := .built } with
      built := s.built.insert name { name, files, prose := p.prose, dependencies } }
  linking : ∀ {s : PackageSet} {linking}, inv.set s → inv.set { s with linking }

/-- `s'` is reached from `s` by steps that keep an invariant. -/
structure Kept (w : Workspace) (inv : Invariant) (fixed : List String) (s s' : PackageSet) :
    Prop extends Evolves w fixed s s' where
  keeps : inv.set s → inv.set s'

namespace Kept

variable {w : Workspace} {inv : Invariant} {fixed : List String} {s s' : PackageSet}

instance : Std.Refl (Kept w inv fixed) :=
  ⟨fun s => ⟨refl s, id⟩⟩

instance : IsTrans PackageSet (Kept w inv fixed) :=
  ⟨fun _ _ _ h h' => ⟨IsTrans.trans _ _ _ h.toEvolves h'.toEvolves, h'.keeps ∘ h.keeps⟩⟩

theorem weaken {fewer : List String} (hsub : fewer ⊆ fixed) (h : Kept w inv fixed s s') :
    Kept w inv fewer s s' :=
  ⟨h.toEvolves.weaken hsub, h.keeps⟩

end Kept

theorem Kept.extends {w : Workspace} {inv : Invariant} {fixed : List String} {s s' : PackageSet}
    (h : Kept w inv fixed s s') : s.Extends s' :=
  h.toEvolves.extends

namespace Workspace.Keeps

variable {w : Workspace} {inv : Invariant} (h : w.Keeps inv) {fixed : List String} {s : PackageSet}

include h

theorem ensures_load (name : String) :
    Ensures (Kept w inv fixed) (w.load name) s (fun _ s' => s'.Resolved name) fun _ _ => True := by
  refine (w.ensures_load name).imp (fun s' hrun => ⟨hrun.evolves, ?_⟩) (fun _ _ _ h => h)
    fun _ _ _ _ => trivial
  exact keeps_of_run (fun _ _ hstep => h.load hstep) hrun

/-! ## Files -/

theorem ensures_materialize (name : String) :
    Ensures (Kept w inv fixed) (w.materialize name) s
      (fun _ s' => ∃ p, s'.packages.get? name = some p ∧ p.materialized = true)
      fun _ _ => True := by
  refine .bind ((Workspace.ensures_package name).imp (fun _ h => h) (fun _ _ _ h => h)
    fun _ _ _ _ => trivial) ?_
  rintro p s' - ⟨rfl, hp⟩
  by_cases hm : p.materialized = true
  · rw [if_pos hm]
    exact .pure ⟨p, hp, hm⟩
  rw [if_neg hm]
  by_cases hall : ∀ source ∈ p.sources, w.Convertible s' source
  · have hkept : Kept w inv fixed s' (s'.addFiles (p.sources.flatMap (w.converted s'))) :=
      ⟨w.evolves_addFiles _, h.convert hp (List.Subset.refl _) fun _ => rfl⟩
    refine .bind (P := fun _ s₁ => s₁ = s'.addFiles (p.sources.flatMap (w.converted s')))
      (.of_outcome (w.exec_materializeSources hall) hkept (fun _ _ => rfl) fun _ _ => trivial) ?_
    rintro _ s₁ - rfl
    have hp₁ : (s'.addFiles (p.sources.flatMap (w.converted s'))).packages.get? name = some p := hp
    refine .modify ⟨.of_update (.materialize _ name), h.materialize hp₁ hall fun k => ?_⟩ ?_
    · exact get?_addFiles_twice s' _ k
    · exact ⟨_, by rw [PackageSet.get?_update_of_some hp₁, if_pos rfl], rfl⟩
  · obtain ⟨done, e, hdone, hexec⟩ := w.exec_materializeSources_error hall
    refine .bind (P := fun _ _ => False) (.of_outcome hexec ?_ ?_ fun _ _ => trivial)
      fun _ _ _ h => h.elim
    · exact ⟨w.evolves_addFiles _, h.convert hp hdone fun hall' => absurd hall' hall⟩
    · rintro _ ⟨⟩

theorem ensures_foreignFile {file package : String} (hnew : s.files.get? file = none)
    (hforeign : w.repository.packageOf file = .ok (package, false)) (hs : inv.set s) :
    Ensures (Kept w inv fixed) (w.foreignFile file) s (fun f _ => inv.file file f)
      fun _ _ => True := by
  have hexec := w.exec_foreignFile file s
  cases hf : w.foreign? file with
  | error e =>
      simp only [hf] at hexec
      exact .of_outcome hexec (refl s) (by rintro _ ⟨⟩) fun _ _ => trivial
  | ok found =>
      cases found with
      | none =>
          simp only [hf] at hexec
          exact .of_outcome hexec (refl s) (by rintro _ ⟨⟩) fun _ _ => trivial
      | some f =>
          simp only [hf] at hexec
          have hs' : inv.set { s with files := s.files.insert file f } := h.foreign hnew hforeign hf hs
          refine .of_outcome hexec ⟨.note rfl rfl rfl rfl, fun _ => hs'⟩ ?_ fun _ _ => trivial
          rintro _ ⟨⟩
          exact h.found hs' (by rw [Dict.get?_insert, if_pos rfl])

theorem ensures_resolveFile (file : String) (hs : inv.set s) :
    Ensures (Kept w inv fixed) (w.resolveFile file) s (fun f _ => inv.file file f)
      fun _ _ => True := by
  refine .get ?_
  cases hfile : s.files.get? file with
  | some f => exact .pure (h.found hs hfile)
  | none =>
      refine .bind (P := fun found s' => s' = s ∧ w.repository.packageOf file = .ok found)
        (.lift (fun _ hfound => ⟨rfl, hfound⟩) fun _ _ => trivial) ?_
      rintro ⟨name, isLocal⟩ s' - ⟨rfl, hfound⟩
      cases isLocal with
      | false =>
          simp only [Bool.false_eq_true, if_false]
          exact h.ensures_foreignFile hfile hfound hs
      | true =>
          simp only [if_true]
          refine .bind (h.ensures_load name) fun _ s₁ h₁ _ => ?_
          refine .bind (h.ensures_materialize name) fun _ s₂ h₂ _ => ?_
          refine .get ?_
          cases hfile₂ : s₂.files.get? file with
          | some f => exact .pure (h.found (h₂.keeps (h₁.keeps hs)) hfile₂)
          | none => exact .throw trivial

/-- Looking for a file links none. -/
theorem ensures_resolveFile_new {file : String} (hs : inv.set s) (hnew : s.linked.get? file = none) :
    Ensures (Kept w inv fixed) (w.resolveFile file) s
      (fun f s' => inv.file file f ∧ s'.linked.get? file = none) fun _ _ => True := by
  have hfile : Ensures (Kept w inv (file :: fixed)) (w.resolveFile file) s
      (fun f _ => inv.file file f) fun _ _ => True := h.ensures_resolveFile file hs
  refine hfile.imp (fun _ hk => hk.weaken (List.subset_cons_self _ _)) (fun f s' hk hf => ⟨hf, ?_⟩)
    fun _ _ _ _ => trivial
  rw [hk.fixed file List.mem_cons_self, hnew]

/-! ## Linking -/

/-- Linking a file alone, when nobody linked it before and its imports are linked. -/
theorem ensures_linkAlone {file : String} {f : FileDescriptor} (hfixed : file ∉ fixed)
    (hf : inv.file file f) (hnew : s.linked.get? file = none)
    (himports : ∀ d ∈ f.dependencies, s.linked.contains d = true) :
    Ensures (Kept w inv fixed) (linkAlone file f) s
      (fun linked s' => s'.linked.get? file = some linked) fun _ _ => True := by
  refine .get ?_
  cases himport : s.symbols.importFile f with
  | error cause => exact .throw trivial
  | ok symbols =>
      refine .bind (P := fun _ s' => s' = { s with symbols })
        (.modify ⟨.note rfl rfl rfl rfl, h.declare hf hnew himports himport⟩ rfl) ?_
      rintro _ s' - rfl
      cases hlink : symbols.link f with
      | error cause => exact .throw trivial
      | ok linked =>
          refine .bind (P := fun _ s' => s'.linked.get? file = some linked)
            (.modify ⟨⟨.single (.link hnew himports hlink), rfl, fun k hk => ?_⟩,
              h.link hf hnew himports himport hlink⟩ ?_) fun _ _ _ h => .pure h
          · rw [Dict.get?_insert, if_neg fun heq : k = file => hfixed (heq ▸ hk)]
          · rw [Dict.get?_insert, if_pos rfl]

/-- The files being linked are as before when a file is no longer one of them. -/
theorem ensures_whileLinking {α : Type} {file : String} {step : BuildM α}
    {Q : α → PackageSet → Prop} {E : BuildError → Prop}
    (hstep : Ensures (Kept w inv fixed) step { s with linking := s.linking ++ [file] } Q
      fun e _ => E e)
    (hQ : ∀ a s' linking, Q a s' → Q a { s' with linking }) :
    Ensures (Kept w inv fixed) (whileLinking file step) s Q fun e _ => E e := by
  have hmoves := hstep.moves
  refine ⟨⟨⟨?_, ?_, ?_⟩, fun hs => ?_⟩, ?_, ?_⟩
  all_goals rw [exec_whileLinking]
  · have hpush : Step w s { s with linking := s.linking ++ [file] } := .note rfl rfl rfl
    exact (ReflTransGen.single hpush).trans (hmoves.steps.tail (.note rfl rfl rfl))
  · rw [hmoves.linking, List.dropLast_concat]
  · exact hmoves.fixed
  · exact h.linking (hmoves.keeps (h.linking hs))
  · exact fun a ha => hQ a _ _ (hstep.ok a ha)
  · exact hstep.error

omit h in
/-- The imports of a file are linked while the file itself is not. -/
theorem ensures_imports {depth : Nat} {file : String} {dependencies : List String}
    {E : BuildError → PackageSet → Prop}
    (hs : inv.set s) (hlinking : s.linking = fixed ++ [file]) (hnew : s.linked.get? file = none)
    (hlink : ∀ d ∈ dependencies, ∀ s' : PackageSet, Kept w inv (fixed ++ [file]) s s' →
      inv.set s' → s'.linking = fixed ++ [file] →
      Ensures (Kept w inv s'.linking) (w.linkFrom depth d) s'
        (fun linked s'' => s''.linked.get? d = some linked) E) :
    Ensures (Kept w inv fixed)
      (dependencies.forM fun d => do
        let _ ← w.linkFrom depth d) s
      (fun _ s' => s'.linked.get? file = none ∧ ∀ d ∈ dependencies, s'.linked.contains d = true)
      E := by
  have hall : Ensures (Kept w inv (fixed ++ [file]))
      (dependencies.forM fun d => do
        let _ ← w.linkFrom depth d) s
      (fun _ s' => ∀ d ∈ dependencies, s'.linked.contains d = true) E := by
    refine .forM (fun d _ _ hk => hk.extends.linked_contains) fun d hd s' hk => ?_
    have hd' := hlink d hd s' hk (hk.keeps hs) (hk.linking.trans hlinking)
    rw [hk.linking, hlinking] at hd'
    exact .bind hd' fun linked s'' _ hl => .pure (Dict.contains_iff.mpr ⟨linked, hl⟩)
  refine hall.imp (fun _ hk => hk.weaken (List.subset_append_left _ _)) (fun _ s' hk hd => ⟨?_, hd⟩)
    fun _ _ _ he => he
  rw [hk.fixed file (List.mem_append_right _ List.mem_cons_self), hnew]

theorem ensures_linkFrom {depth : Nat} {file : String} (hs : inv.set s) :
    Ensures (Kept w inv s.linking) (w.linkFrom depth file) s
      (fun linked s' => s'.linked.get? file = some linked) fun _ _ => True := by
  induction depth generalizing file s with
  | zero => exact .get (.throw trivial)
  | succ depth ih =>
      rw [linkFrom]
      refine .get ?_
      cases hnew : s.linked.get? file with
      | some linked => exact .pure hnew
      | none =>
          refine .get ?_
          by_cases hin : file ∈ s.linking
          · simp only [List.contains_iff_mem, hin, if_true]
            exact .get (.throw trivial)
          · simp only [List.contains_iff_mem, hin, if_false]
            refine .bind (h.ensures_resolveFile_new hs hnew) ?_
            rintro f s₁ h₁ ⟨hf, hnew₁⟩
            refine h.ensures_whileLinking ?_ fun _ _ _ h => h
            refine .bind (ensures_imports (h.linking (h₁.keeps hs)) (by rw [h₁.linking]) hnew₁
              fun d _ s' _ hs' _ => ih hs') ?_
            rintro _ s₂ - ⟨hnew₂, himports⟩
            exact h.ensures_linkAlone hin hf hnew₂ himports

theorem ensures_link (file : String) (hs : inv.set s) :
    Ensures (Kept w inv []) (w.link file) s
      (fun linked s' => s'.linked.get? file = some linked) fun _ _ => True :=
  (h.ensures_linkFrom hs).imp (fun _ hk => hk.weaken (List.nil_subset _)) (fun _ _ _ h => h)
    fun _ _ _ _ => trivial

/-! ## Building and linting -/

/-- Marking a package as built, when all that takes is there. -/
theorem ensures_built {name : String} {p : Package} {files : List LinkedFile}
    {dependencies : List BuiltPackage} {E : BuildError → PackageSet → Prop} (hp : s.packages.get? name = some p)
    (hmaterialized : p.materialized = true)
    (hdeps : List.Forall₂ (fun d b => inv.package s d b ∧ s.built.contains d = true)
      p.dependencies dependencies)
    (hfiles : List.Forall₂ (fun file l => s.linked.get? file = some l)
      (p.sources.flatMap fun source => source.summary.produces) files) :
    Ensures (Kept w inv [])
      (modify fun s =>
        { s.update name fun p => { p with state := .built } with
          built := s.built.insert name { name, files, prose := p.prose, dependencies } }) s
      (fun _ s' => s'.built.get? name = some { name, files, prose := p.prose, dependencies })
      E := by
  have hcached : ∀ d ∈ p.dependencies, s.built.contains d = true := by
    intro d hd
    obtain ⟨b, -, hb⟩ := exists_of_forall₂ hdeps hd
    exact hb.2
  have hlinked : ∀ source ∈ p.sources, ∀ file ∈ source.summary.produces,
      s.linked.contains file = true := by
    intro source hsource file hfile
    obtain ⟨l, -, hl⟩ := exists_of_forall₂ hfiles (List.mem_flatMap.mpr ⟨source, hsource, hfile⟩)
    exact Dict.contains_iff.mpr ⟨l, hl⟩
  refine .modify ⟨⟨.single (.build _ hp hcached hmaterialized hlinked), s.linking_update name _,
    fun _ h => absurd h List.not_mem_nil⟩, ?_⟩ ?_
  · exact h.build hp hmaterialized (hdeps.imp fun _ _ hb => hb.1) hfiles
  · rw [Dict.get?_insert, if_pos rfl]

/-- A package that is built is in the cache.  If it cannot be built, a package is not there, or
converting or linking has failed. -/
theorem ensures_buildFrom_errors {depth : Nat} {name : String} {E : BuildError → Prop}
    (hs : inv.set s) (hmissing : ∀ n, E (.packageNotFound n))
    (hmaterialize : ∀ n (s' : PackageSet) e, ((w.materialize n).exec s').1 = .error e → E e)
    (hlink : ∀ file (s' : PackageSet) e, inv.set s' → s'.linking = s.linking →
      ((w.link file).exec s').1 = .error e → E e) :
    Ensures (Kept w inv []) (w.buildFrom depth name) s
      (fun b s' => s'.built.get? name = some b) fun e _ => E e := by
  induction depth generalizing name s with
  | zero => exact .throw (hmissing name)
  | succ depth ih =>
      rw [buildFrom]
      refine .get ?_
      cases hb : s.built.get? name with
      | some b => exact .pure hb
      | none =>
          refine .bind ((Workspace.ensures_package name).imp (fun _ h => h) (fun _ _ _ h => h)
            fun _ _ _ he => he.1 ▸ hmissing name) ?_
          rintro p s - ⟨rfl, hp⟩
          refine .bind (.mapM_results
            (P := fun d b s' => inv.package s' d b ∧ s'.built.contains d = true)
            (fun d _ _ _ hk hb => ⟨h.lasts hk.extends hb.1, hk.extends.built d hb.2⟩)
            fun d _ s' hk => ?_) fun dependencies s₁ h₁ hdeps => ?_
          · refine (ih (hk.keeps hs) fun file s'' e hs'' hlinking =>
              hlink file s'' e hs'' (hlinking.trans hk.linking)).imp (fun _ h => h)
                (fun b s'' hk' hb => ?_) fun _ _ _ h => h
            exact ⟨h.cached (hk'.keeps (hk.keeps hs)) hb, Dict.contains_iff.mpr ⟨b, hb⟩⟩
          refine .bind ((h.ensures_materialize name).with_errors fun e => hmaterialize name s₁ e)
            fun _ s₂ h₂ hmat => ?_
          have hs₂ : inv.set s₂ := h₂.keeps (h₁.keeps hs)
          refine .bind (.mapM_results (P := fun file l s' => s'.linked.get? file = some l)
            (fun file l _ _ hk => hk.extends.linked file l) fun file _ s' hk =>
              (h.ensures_link file (hk.keeps hs₂)).with_errors fun e => hlink file s' e (hk.keeps hs₂)
                (hk.linking.trans (h₂.linking.trans h₁.linking))) fun files s₃ h₃ hfiles => ?_
          have h₁₃ : s₁.Extends s₃ := h₂.extends.trans h₃.extends
          obtain ⟨q, hq, hpq⟩ := (h₁.extends.trans h₁₃).packages name p hp
          have hqm : q.materialized = true := by
            obtain ⟨m, hm, hmaterialized⟩ := hmat
            exact (h₃.extends.package_of_later hm hq).materialized hmaterialized
          rw [← hpq.dependencies] at hdeps
          rw [← hpq.sources] at hfiles
          rw [← hpq.prose]
          refine .bind (h.ensures_built hq hqm (hdeps.imp fun d b hb =>
            ⟨h.lasts h₁₃ hb.1, h₁₃.built d hb.2⟩) hfiles) fun _ _ _ h => .pure h

theorem ensures_buildFrom {depth : Nat} {name : String} (hs : inv.set s) :
    Ensures (Kept w inv []) (w.buildFrom depth name) s
      (fun b s' => s'.built.get? name = some b) fun _ _ => True :=
  h.ensures_buildFrom_errors hs (fun _ => trivial) (fun _ _ _ _ => trivial)
    fun _ _ _ _ _ _ => trivial

theorem ensures_build (name : String) (hs : inv.set s) :
    Ensures (Kept w inv []) (w.build name) s (fun b s' => s'.built.get? name = some b)
      fun _ _ => True :=
  .get (h.ensures_buildFrom hs)

theorem ensures_compile (name : String) (hs : inv.set s) :
    Ensures (Kept w inv []) (w.compile name) s (fun b s' => s'.built.get? name = some b)
      fun _ _ => True :=
  .bind (h.ensures_load name) fun _ _ hk _ => h.ensures_build name (hk.keeps hs)

theorem ensures_buildOrder (names : List String) :
    Ensures (Kept w inv []) (w.buildOrder names) s (fun _ _ => True) fun _ _ => True := by
  refine .bind (.forM (P := fun _ _ => True) (fun _ _ _ _ h => h) fun name _ _ _ =>
    (h.ensures_load name).imp (fun _ h => h) (fun _ _ _ _ => trivial) fun _ _ _ h => h)
    fun _ s₁ _ _ => .get ?_
  dsimp only
  split
  · exact .throw trivial
  · split
    · exact .pure trivial
    · exact .throw trivial

/-- Packages that are built one after the other are given out under their names. -/
theorem ensures_builds (order : List String) (hs : inv.set s) :
    Ensures (Kept w inv []) (order.mapM w.build) s
      (fun bs s' => List.Forall₂ (fun name b => inv.package s' name b) order bs)
      fun _ _ => True := by
  refine .mapM_results (fun _ _ _ _ hk => h.lasts hk.extends) fun name _ s' hk => ?_
  have hs' : inv.set s' := hk.keeps hs
  exact (h.ensures_build name hs').imp (fun _ h => h)
    (fun b s'' hk' hb => h.cached (hk'.keeps hs') hb) fun _ _ _ h => h

/-- Every package that is given out was built under its name. -/
theorem ensures_buildAll (names : List String) (hs : inv.set s) :
    Ensures (Kept w inv []) (w.buildAll names) s
      (fun bs s' => ∀ b ∈ bs, ∃ name, inv.package s' name b) fun _ _ => True := by
  refine .bind (h.ensures_buildOrder names) fun order s₁ h₁ _ => ?_
  refine (h.ensures_builds order (h₁.keeps hs)).imp (fun _ h => h) (fun bs s' _ hbs b hb => ?_)
    fun _ _ _ h => h
  obtain ⟨name, -, hname⟩ := exists_of_forall₂ hbs.flip hb
  exact ⟨name, hname⟩

theorem ensures_lintFile (source : SourceFile) (file : String) (hs : inv.set s) :
    Ensures (Kept w inv []) (w.lintFile source file) s (fun _ _ => True) fun _ _ => True := by
  refine .bind (h.ensures_link file hs).attempt fun outcome s₁ _ _ => ?_
  cases outcome with
  | ok linked => exact .pure trivial
  | error e => exact .pure trivial

theorem ensures_lintFiles (l : LintedSource) (hs : inv.set s) :
    Ensures (Kept w inv []) (w.lintFiles l) s (fun _ _ => True) fun _ _ => True :=
  .bind (.mapM (P := fun _ _ => True) (fun _ _ _ _ h => h) fun file _ _ hk =>
    h.ensures_lintFile l.source file (hk.keeps hs)) fun _ _ _ _ => .pure trivial

theorem ensures_lint (name : String) (hs : inv.set s) :
    Ensures (Kept w inv []) (w.lint name) s (fun _ _ => True) fun _ _ => True := by
  refine .bind (h.ensures_load name) fun _ s₁ h₁ _ => ?_
  have hs₁ : inv.set s₁ := h₁.keeps hs
  refine .bind ((Workspace.ensures_package name).imp (fun _ h => h) (fun _ _ _ h => h)
    fun _ _ _ _ => trivial) ?_
  rintro p s₁ - ⟨rfl, hp⟩
  refine .bind (.forM (P := fun _ _ => True) (fun _ _ _ _ h => h) fun d _ _ hk =>
    .bind (h.ensures_build d (hk.keeps hs₁)) fun _ _ _ _ => .pure trivial) fun _ s₂ h₂ _ => ?_
  obtain ⟨q, hq, hpq⟩ := h₂.extends.packages name p hp
  have hkept : Kept w inv [] s₂ (s₂.addFiles (p.sources.flatMap (w.converted s₂))) := by
    rw [← hpq.sources]
    exact ⟨w.evolves_addFiles _, h.convert hq (List.Subset.refl _) fun _ => rfl⟩
  refine .bind (P := fun _ _ => True) (.of_outcome (w.exec_lintSources s₂ p.sources) hkept
    (fun _ _ => trivial) fun _ _ => trivial) fun sources s₃ h₃ _ => ?_
  have hs₃ : inv.set s₃ := h₃.keeps (h₂.keeps hs₁)
  exact .bind (.mapM (P := fun _ _ => True) (fun _ _ _ _ h => h) fun l _ _ hk =>
    h.ensures_lintFiles l (hk.keeps hs₃)) fun _ _ _ _ => .pure trivial

end Workspace.Keeps

/-! ## The invariant that always holds -/

def Invariant.trivial : Invariant where
  set _ := True
  file _ _ := True
  package _ _ _ := True

namespace Workspace

variable (w : Workspace) {s : PackageSet}

theorem keeps_trivial : w.Keeps .trivial where
  found _ _ := True.intro
  cached _ _ := True.intro
  lasts _ _ := True.intro
  load _ _ := True.intro
  convert _ _ _ _ := True.intro
  materialize _ _ _ _ := True.intro
  foreign _ _ _ _ := True.intro
  declare _ _ _ _ _ := True.intro
  link _ _ _ _ _ _ := True.intro
  build _ _ _ _ _ := True.intro
  linking _ := True.intro

theorem evolves_buildFrom (depth : Nat) (name : String) :
    Evolves w [] s ((w.buildFrom depth name).exec s).2 :=
  (w.keeps_trivial.ensures_buildFrom True.intro).moves.toEvolves

end Workspace
end Schematic
