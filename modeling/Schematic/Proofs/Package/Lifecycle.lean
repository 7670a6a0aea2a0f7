import Schematic.Proofs.Package.Invariant

/-!
# The life of a package

A package is summarized, then resolved, then built, and never goes back.  Resolved packages
need resolved packages, built packages need built packages, and all files of a built
package are linked.  This holds after every sequence of calls, also when some of them
fail on the way: each step keeps it, and a call is a run of steps whatever its outcome.
-/

namespace Schematic

open Relation BuildM

/-! ## The invariant -/

namespace PackageSet

structure Lifecycle (s : PackageSet) : Prop extends Ordered s where
  built_iff : ∀ name, s.Built name ↔ s.built.contains name = true
  built_closed : ∀ a b, s.Built a → s.DependsOn a b → s.Built b
  complete : ∀ name p, s.packages.get? name = some p → p.state = .built →
    p.materialized = true ∧ ∀ source ∈ p.sources, ∀ file ∈ source.summary.produces,
      s.linked.contains file = true

theorem not_built_empty (name : String) : ¬ ({} : PackageSet).Built name := by
  rintro ⟨p, hp, -⟩
  cases hp

theorem lifecycle_empty : ({} : PackageSet).Lifecycle where
  toOrdered := ordered_empty
  built_iff name := iff_of_false (not_built_empty name) Bool.false_ne_true
  built_closed a _ ha := absurd ha (not_built_empty a)
  complete _ _ hp := by cases hp

theorem Ordered.congr {s s' : PackageSet} (h : s.Ordered)
    (hres : ∀ n, s'.Resolved n ↔ s.Resolved n)
    (hdep : ∀ a b, s'.DependsOn a b ↔ s.DependsOn a b) : s'.Ordered := by
  constructor
  · intro a b
    rw [hres, hres, hdep]
    exact h.closed a b
  · refine h.acyclic.mono fun a b hab => ?_
    rw [hres, hres, hdep] at hab
    exact hab

theorem Ordered.of_packages {s s' : PackageSet} (h : s.Ordered)
    (hpackages : s'.packages = s.packages) : s'.Ordered := by
  refine h.congr (fun n => ?_) fun a b => ?_
  · rw [Resolved, Resolved, hpackages]
  · rw [DependsOn, DependsOn, hpackages]

theorem Ordered.materialize {s : PackageSet} (h : s.Ordered) (name : String) :
    (s.update name fun p => { p with materialized := true }).Ordered := by
  refine h.congr (fun n => ?_) fun a b => ?_
  · simp only [Resolved, get?_update]
    by_cases hn : n = name
    · subst hn
      cases s.packages.get? n <;> simp
    · simp only [if_neg hn]
  · simp only [DependsOn, get?_update]
    by_cases ha : a = name
    · subst ha
      cases s.packages.get? a <;> simp
    · simp only [if_neg ha]

theorem built_materialize {s : PackageSet} {name n : String}
    (h : (s.update name fun p => { p with materialized := true }).Built n) : s.Built n := by
  obtain ⟨p, hp, hstate⟩ := h
  rw [get?_update] at hp
  by_cases hn : n = name
  · rw [if_pos hn, Option.map_eq_some_iff] at hp
    obtain ⟨q, hq, rfl⟩ := hp
    exact ⟨q, hn ▸ hq, hstate⟩
  · rw [if_neg hn] at hp
    exact ⟨p, hp, hstate⟩

theorem built_setBuilt {s : PackageSet} {name : String} {p : Package}
    (hp : s.packages.get? name = some p) (n : String) :
    (s.update name fun p => { p with state := .built }).Built n ↔ s.Built n ∨ n = name := by
  simp only [Built, get?_update_of_some hp]
  by_cases hn : n = name
  · simp [hn]
  · simp [hn]

theorem Extends.built_of_built {s s' : PackageSet} (h : s.Extends s') {name : String}
    (hb : s.Built name) : s'.Built name := by
  obtain ⟨p, hp, hstate⟩ := hb
  obtain ⟨q, hq, hpq⟩ := h.packages name p hp
  refine ⟨q, hq, ?_⟩
  have hrank := hpq.state
  rw [hstate] at hrank
  cases hq' : q.state with
  | built => rfl
  | summarized => exact absurd (hq' ▸ hrank) (by decide)
  | resolved => exact absurd (hq' ▸ hrank) (by decide)

/-- Steps that build no package keep what is known of the built ones. -/
theorem Lifecycle.of_same_built {s s' : PackageSet} (h : s.Lifecycle) (hext : s.Extends s')
    (hordered : s'.Ordered) (hbuilt : ∀ n, s'.Built n → s.Built n)
    (hcache : s'.built = s.built) : s'.Lifecycle where
  toOrdered := hordered
  built_iff name := by
    rw [hcache, ← h.built_iff]
    exact ⟨hbuilt name, hext.built_of_built⟩
  built_closed a b ha hab := by
    obtain ⟨p, hp, hstate⟩ := hbuilt a ha
    obtain ⟨q, hq, hb⟩ := hab
    have hpq := hext.package_of_later hp hq
    exact hext.built_of_built (h.built_closed a b ⟨p, hp, hstate⟩ ⟨p, hp, hpq.dependencies ▸ hb⟩)
  complete name q hq hstate := by
    obtain ⟨p, hp, hstate⟩ := hbuilt name ⟨q, hq, hstate⟩
    have hpq := hext.package_of_later hp hq
    obtain ⟨hmat, hlinked⟩ := h.complete name p hp hstate
    refine ⟨hpq.materialized hmat, fun source hs file hf => ?_⟩
    exact hext.linked_contains (hlinked source (hpq.sources ▸ hs) file hf)

/-- Building a package when all that it needs is built. -/
theorem Lifecycle.build {s : PackageSet} (h : s.Lifecycle) {name : String} {p : Package}
    (built : BuiltPackage) (hp : s.packages.get? name = some p)
    (hdeps : ∀ d ∈ p.dependencies, s.built.contains d = true)
    (hmaterialized : p.materialized = true)
    (hlinked : ∀ source ∈ p.sources, ∀ file ∈ source.summary.produces,
      s.linked.contains file = true) :
    PackageSet.Lifecycle
      { s.update name fun p => { p with state := .built } with
        built := s.built.insert name built } := by
  have hneed : ∀ d, s.DependsOn name d → s.Built d := by
    rintro d ⟨q, hq, hd⟩
    rw [hp, Option.some.injEq] at hq
    exact (h.built_iff d).mpr (hdeps d (hq ▸ hd))
  have hordered : (s.update name fun p => { p with state := .built }).Ordered :=
    h.raise dependsOn_setState (resolved_setState hp (by decide)) fun d hd => (hneed d hd).resolved
  refine ⟨hordered.of_packages rfl, fun n => ?_, fun a b ha hab => ?_, fun n q hq hstate => ?_⟩
  · refine (built_setBuilt hp n).trans ?_
    rw [h.built_iff, Dict.contains_iff, Dict.contains_iff, Dict.get?_insert]
    by_cases hn : n = name
    · simp [hn]
    · simp [hn]
  · refine (built_setBuilt hp b).mpr (Or.inl ?_)
    have hab' : s.DependsOn a b := (dependsOn_setState a b).mp hab
    rcases (built_setBuilt hp a).mp ha with ha | rfl
    · exact h.built_closed a b ha hab'
    · exact hneed b hab'
  · have hq' : (if n = name then some { p with state := .built } else s.packages.get? n) = some q :=
      (get?_update_of_some hp _ n).symm.trans hq
    show q.materialized = true ∧ ∀ source ∈ q.sources, ∀ file ∈ source.summary.produces,
      (s.update name fun p => { p with state := .built }).linked.contains file = true
    rw [linked_update]
    by_cases hn : n = name
    · rw [if_pos hn, Option.some.injEq] at hq'
      exact hq' ▸ ⟨hmaterialized, hlinked⟩
    · rw [if_neg hn] at hq'
      exact h.complete n q hq' hstate

end PackageSet

theorem LoadStep.cache {r : Repository} {s s' : PackageSet} (h : LoadStep r s s') :
    s'.built = s.built := by
  cases h with
  | summarize => rfl
  | resolve => exact s.built_update _ _

theorem Step.lifecycle {w : Workspace} {s s' : PackageSet} (h : Step w s s')
    (hs : s.Lifecycle) : s'.Lifecycle := by
  have hext := h.extends
  cases h with
  | load h => exact hs.of_same_built hext (h.ordered hs.toOrdered) (fun _ => h.built) h.cache
  | materialize name =>
      exact hs.of_same_built hext (hs.toOrdered.materialize name)
        (fun _ => PackageSet.built_materialize) (s.built_update _ _)
  | link =>
      exact hs.of_same_built hext (hs.toOrdered.of_packages rfl) (fun _ h => h) rfl
  | build built hp hdeps hmaterialized hlinked =>
      exact hs.build built hp hdeps hmaterialized hlinked
  | note hpackages hbuilt hlinked =>
      refine hs.of_same_built hext (hs.toOrdered.of_packages hpackages) (fun n hn => ?_) hbuilt
      rwa [PackageSet.Built, hpackages] at hn

theorem Steps.lifecycle {w : Workspace} {s s' : PackageSet} (h : Steps w s s')
    (hs : s.Lifecycle) : s'.Lifecycle :=
  keeps_of_run (fun _ _ hstep => hstep.lifecycle) h hs

/-! ## Calls -/

/-- The calls that can change a package set. -/
inductive Call where
  | compile (name : String)
  | buildAll (names : List String)
  | buildOrder (names : List String)
  | lint (name : String)

/-- The package set that a call leaves, whether it succeeds or fails. -/
def Call.after (w : Workspace) (s : PackageSet) : Call → PackageSet
  | .compile name => ((w.compile name).exec s).2
  | .buildAll names => ((w.buildAll names).exec s).2
  | .buildOrder names => ((w.buildOrder names).exec s).2
  | .lint name => ((w.lint name).exec s).2

/-- `s'` is what a sequence of calls makes of `s`.  Each call may have its own workspace out of
`W`, as dependency sets may be added and the catalog exchanged between two calls. -/
def Calls (W : Workspace → Prop) : PackageSet → PackageSet → Prop :=
  ReflTransGen fun s s' => ∃ w, W w ∧ ∃ call : Call, s' = call.after w s

theorem Workspace.Keeps.kept {w : Workspace} {inv : Invariant} (h : w.Keeps inv) {s : PackageSet}
    (call : Call) (hs : inv.set s) : Kept w inv [] s (call.after w s) := by
  cases call with
  | compile name => exact (h.ensures_compile name hs).moves
  | buildAll names => exact (h.ensures_buildAll names hs).moves
  | buildOrder names => exact (h.ensures_buildOrder names).moves
  | lint name => exact (h.ensures_lint name hs).moves

theorem Call.evolves (w : Workspace) (s : PackageSet) (call : Call) :
    Evolves w [] s (call.after w s) :=
  (w.keeps_trivial.kept call trivial).toEvolves

namespace Calls

variable {W : Workspace → Prop} {s s' : PackageSet}

theorem keeps {P : PackageSet → Prop} (hP : ∀ w a b, W w → Evolves w [] a b → P a → P b)
    (h : Calls W s s') (hs : P s) : P s' := by
  refine keeps_of_run (fun a b hcall ha => ?_) h hs
  obtain ⟨w, hw, call, rfl⟩ := hcall
  exact hP w a _ hw (call.evolves w a) ha

/-- What every call keeps holds after any sequence of calls. -/
theorem invariant {inv : Invariant} (hW : ∀ w, W w → w.Keeps inv) (h : Calls W s s')
    (hs : inv.set s) : inv.set s' := by
  refine keeps_of_run (fun a b hcall ha => ?_) h hs
  obtain ⟨w, hw, call, rfl⟩ := hcall
  exact ((hW w hw).kept call ha).keeps ha

theorem lifecycle (h : Calls W s s') (hs : s.Lifecycle) : s'.Lifecycle :=
  h.keeps (fun _ _ _ _ hcall => hcall.steps.lifecycle) hs

theorem linking (h : Calls W s s') : s'.linking = s.linking :=
  h.keeps (P := fun a => a.linking = s.linking) (fun _ _ _ _ hcall ha => hcall.linking.trans ha) rfl

end Calls

theorem Calls.extends {W : Workspace → Prop} {s s' : PackageSet} (h : Calls W s s') :
    s.Extends s' :=
  h.keeps (P := s.Extends) (fun _ _ _ _ hcall ha => ha.trans hcall.extends) (.refl s)

/-- What holds of the packages after any sequence of calls: none goes back, resolved ones need
resolved ones and not in a circle, the built ones are those in the cache, need built ones and
have all their files linked, and no file is left being linked. -/
theorem package_lifecycle {W : Workspace → Prop} {s s' : PackageSet} (hs : Calls W {} s)
    (h : Calls W s s') :
    (∀ name p, s.packages.get? name = some p →
      ∃ q, s'.packages.get? name = some q ∧ p.state.rank ≤ q.state.rank ∧
        q.sources = p.sources ∧ q.exports = p.exports ∧ q.dependencies = p.dependencies) ∧
    ((∀ a b, s'.Resolved a → s'.DependsOn a b → s'.Resolved b) ∧
      Acyclic fun a b => s'.Resolved a ∧ s'.Resolved b ∧ s'.DependsOn a b) ∧
    ((∀ name, s'.Built name ↔ s'.built.contains name = true) ∧
      ∀ name p, s'.packages.get? name = some p → p.state = .built →
        (∀ d ∈ p.dependencies, s'.Built d) ∧ p.materialized = true ∧
        ∀ source ∈ p.sources, ∀ file ∈ source.summary.produces,
          s'.linked.contains file = true) ∧
    s'.linking = [] := by
  have hlife : s'.Lifecycle := h.lifecycle (hs.lifecycle PackageSet.lifecycle_empty)
  refine ⟨fun name p hp => ?_, ⟨hlife.closed, hlife.acyclic⟩, ⟨hlife.built_iff, ?_⟩, ?_⟩
  · obtain ⟨q, hq, hpq⟩ := h.extends.packages name p hp
    exact ⟨q, hq, hpq.state, hpq.sources, hpq.exports, hpq.dependencies⟩
  · intro name p hp hstate
    refine ⟨fun d hd => ?_, hlife.complete name p hp hstate⟩
    exact hlife.built_closed name d ⟨p, hp, hstate⟩ ⟨p, hp, hd⟩
  · rw [h.linking, hs.linking]

/-- `a.v1` needs `b.v1`. -/
def twoPackages : Workspace where
  repository :=
    { packages := .ofList
        [("a.v1", .ok { sources := [.ofParsed
            ⟨{ name := some "a/v1/a.proto", dependencies := ["b/v1/b.proto"] }, {}⟩ none] }),
         ("b.v1", .ok { sources := [.ofParsed ⟨{ name := some "b/v1/b.proto" }, {}⟩ none] })] }
  catalog := {}

theorem package_lifecycle_twoPackages :
    ∃ s s', Calls (· = twoPackages) {} s ∧ Calls (· = twoPackages) s s' ∧
      s.Resolved "b.v1" ∧ s'.Built "a.v1" ∧ s'.Resolved "b.v1" ∧ s'.Built "b.v1" ∧
      s'.linking = [] := by
  -- The first call loads `b.v1` and then fails, since there is no `c.v1`.
  have hs : Calls (· = twoPackages) {} (Call.after twoPackages {} (.buildOrder ["b.v1", "c.v1"])) :=
    .single ⟨twoPackages, rfl, _, rfl⟩
  have h : Calls (· = twoPackages) (Call.after twoPackages {} (.buildOrder ["b.v1", "c.v1"]))
      (Call.after twoPackages (Call.after twoPackages {} (.buildOrder ["b.v1", "c.v1"]))
        (.compile "a.v1")) := .single ⟨twoPackages, rfl, _, rfl⟩
  obtain ⟨hkept, -, ⟨-, hbuilt⟩, hlinking⟩ := package_lifecycle hs h
  obtain ⟨q, hq, hrank, -⟩ := hkept "b.v1" _ rfl
  obtain ⟨hdeps, -⟩ := hbuilt "a.v1" _ rfl rfl
  have hb := hdeps "b.v1" (by decide)
  exact ⟨_, _, hs, h, ⟨_, rfl, by decide⟩, ⟨_, rfl, rfl⟩, ⟨q, hq, hrank⟩, hb, hlinking⟩

end Schematic
