import Schematic.Package.Set
import Schematic.Proofs.Acyclic
import Schematic.Proofs.Dict

/-!
# What building does to a package set

Whatever is called, a package set changes only in a few ways, each under a condition of
its own: `LoadStep` has those of loading, and `Step` has all.  A package is marked as
resolved only when all that it needs is, and as built only when all that it needs is
built and all its files are linked.  Nothing that was found out is ever taken back, which
is what `Extends` says.
-/

namespace Schematic

open Relation

theorem PackageState.rank_le_built (state : PackageState) :
    state.rank ≤ PackageState.built.rank := by
  cases state <;> decide

theorem PackageState.rank_le_resolved {state : PackageState} (h : state ≠ .built) :
    state.rank ≤ PackageState.resolved.rank := by
  cases state with
  | summarized => decide
  | resolved => decide
  | built => exact absurd rfl h

namespace PackageSet

/-- The dependencies of a package are resolved, or it is even built. -/
def Resolved (s : PackageSet) (name : String) : Prop :=
  ∃ p, s.packages.get? name = some p ∧ PackageState.resolved.rank ≤ p.state.rank

def Built (s : PackageSet) (name : String) : Prop :=
  ∃ p, s.packages.get? name = some p ∧ p.state = .built

/-- `b` is a direct dependency of `a`, as recorded. -/
def DependsOn (s : PackageSet) (a b : String) : Prop :=
  ∃ p, s.packages.get? a = some p ∧ b ∈ p.dependencies

theorem Built.resolved {s : PackageSet} {name : String} (h : s.Built name) : s.Resolved name := by
  obtain ⟨p, hp, hstate⟩ := h
  exact ⟨p, hp, by rw [hstate]; decide⟩

/-! ## Updates -/

section Update

variable (s : PackageSet) (name : String) (f : Package → Package)

@[simp]
theorem get?_update (k : String) :
    (s.update name f).packages.get? k =
      if k = name then (s.packages.get? name).map f else s.packages.get? k := by
  unfold update
  by_cases hk : k = name
  · subst hk
    cases h : s.packages.get? k with
    | none => simpa using h
    | some p => simp
  · cases s.packages.get? name <;> simp [hk]

@[simp]
theorem built_update : (s.update name f).built = s.built := by
  unfold update
  split <;> rfl

@[simp]
theorem linked_update : (s.update name f).linked = s.linked := by
  unfold update
  split <;> rfl

@[simp]
theorem files_update : (s.update name f).files = s.files := by
  unfold update
  split <;> rfl

@[simp]
theorem symbols_update : (s.update name f).symbols = s.symbols := by
  unfold update
  split <;> rfl

@[simp]
theorem linking_update : (s.update name f).linking = s.linking := by
  unfold update
  split <;> rfl

end Update

theorem get?_update_of_some {s : PackageSet} {name : String} {p : Package}
    (hp : s.packages.get? name = some p) (f : Package → Package) (k : String) :
    (s.update name f).packages.get? k = if k = name then some (f p) else s.packages.get? k := by
  rw [get?_update, hp, Option.map_some]

end PackageSet

/-! ## Steps -/

/-- What loading does. -/
inductive LoadStep (r : Repository) : PackageSet → PackageSet → Prop where
  | summarize {s : PackageSet} {name : String} {p : Package}
      (hnew : s.packages.get? name = none) (hlocal : r.isLocal name = true)
      (hp : r.summarize name = .ok p) :
      LoadStep r s { s with packages := s.packages.insert name p }
  | resolve {s : PackageSet} {name : String} {p : Package}
      (hp : s.packages.get? name = some p) (hstate : p.state ≠ .built)
      (hdeps : ∀ d ∈ p.dependencies, s.Resolved d) :
      LoadStep r s (s.update name fun p => { p with state := .resolved })

abbrev LoadSteps (r : Repository) : PackageSet → PackageSet → Prop :=
  ReflTransGen (LoadStep r)

/-- What any call does. -/
inductive Step (w : Workspace) : PackageSet → PackageSet → Prop where
  | load {s s' : PackageSet} (h : LoadStep w.repository s s') : Step w s s'
  | materialize (s : PackageSet) (name : String) :
      Step w s (s.update name fun p => { p with materialized := true })
  | link {s : PackageSet} {file : String} {f : FileDescriptor} {linked : LinkedFile}
      (hnew : s.linked.get? file = none) (himports : ∀ d ∈ f.dependencies, s.linked.contains d = true)
      (hlinked : s.symbols.link f = .ok linked) :
      Step w s { s with linked := s.linked.insert file linked }
  | build {s : PackageSet} {name : String} {p : Package} (built : BuiltPackage)
      (hp : s.packages.get? name = some p)
      (hdeps : ∀ d ∈ p.dependencies, s.built.contains d = true)
      (hmaterialized : p.materialized = true)
      (hlinked : ∀ source ∈ p.sources, ∀ file ∈ source.summary.produces,
        s.linked.contains file = true) :
      Step w s
        { s.update name fun p => { p with state := .built } with
          built := s.built.insert name built }
  /-- Files found, symbols and the files being linked. -/
  | note {s s' : PackageSet} (hpackages : s'.packages = s.packages) (hbuilt : s'.built = s.built)
      (hlinked : s'.linked = s.linked) : Step w s s'

abbrev Steps (w : Workspace) : PackageSet → PackageSet → Prop :=
  ReflTransGen (Step w)

/-- What every step keeps, a run keeps. -/
theorem keeps_of_run {step : PackageSet → PackageSet → Prop} {P : PackageSet → Prop}
    (hstep : ∀ a b, step a b → P a → P b) {s s' : PackageSet} (h : ReflTransGen step s s')
    (hs : P s) : P s' := by
  induction h with
  | refl => exact hs
  | tail _ hlast ih => exact hstep _ _ hlast ih

/-! ## Nothing is taken back -/

/-- `q` is `p` at the same or a later time. -/
structure Package.Extends (p q : Package) : Prop where
  state : p.state.rank ≤ q.state.rank
  sources : q.sources = p.sources
  prose : q.prose = p.prose
  exports : q.exports = p.exports
  dependencies : q.dependencies = p.dependencies
  materialized : p.materialized = true → q.materialized = true

theorem Package.Extends.refl (p : Package) : p.Extends p :=
  ⟨Nat.le_refl _, rfl, rfl, rfl, rfl, id⟩

theorem Package.Extends.trans {p q t : Package} (hpq : p.Extends q) (hqt : q.Extends t) :
    p.Extends t :=
  ⟨Nat.le_trans hpq.state hqt.state, hqt.sources.trans hpq.sources, hqt.prose.trans hpq.prose,
    hqt.exports.trans hpq.exports, hqt.dependencies.trans hpq.dependencies,
    hqt.materialized ∘ hpq.materialized⟩

namespace PackageSet

/-- `s'` is `s` at the same or a later time. -/
structure Extends (s s' : PackageSet) : Prop where
  packages : ∀ name p, s.packages.get? name = some p →
    ∃ q, s'.packages.get? name = some q ∧ p.Extends q
  built : ∀ name, s.built.contains name = true → s'.built.contains name = true
  linked : ∀ file l, s.linked.get? file = some l → s'.linked.get? file = some l

namespace Extends

variable {s s' s'' : PackageSet}

theorem refl (s : PackageSet) : s.Extends s :=
  ⟨fun _ p hp => ⟨p, hp, .refl p⟩, fun _ h => h, fun _ _ h => h⟩

theorem trans (h : s.Extends s') (h' : s'.Extends s'') : s.Extends s'' where
  packages name p hp := by
    obtain ⟨q, hq, hpq⟩ := h.packages name p hp
    obtain ⟨t, ht, hqt⟩ := h'.packages name q hq
    exact ⟨t, ht, hpq.trans hqt⟩
  built name hb := h'.built name (h.built name hb)
  linked file l hl := h'.linked file l (h.linked file l hl)

theorem resolved (h : s.Extends s') {name : String} (hr : s.Resolved name) :
    s'.Resolved name := by
  obtain ⟨p, hp, hrank⟩ := hr
  obtain ⟨q, hq, hpq⟩ := h.packages name p hp
  exact ⟨q, hq, Nat.le_trans hrank hpq.state⟩

theorem dependsOn (h : s.Extends s') {a b : String} (hab : s.DependsOn a b) :
    s'.DependsOn a b := by
  obtain ⟨p, hp, hb⟩ := hab
  obtain ⟨q, hq, hpq⟩ := h.packages a p hp
  exact ⟨q, hq, by rw [hpq.dependencies]; exact hb⟩

theorem linked_contains (h : s.Extends s') {file : String} (hl : s.linked.contains file = true) :
    s'.linked.contains file = true := by
  obtain ⟨l, hl⟩ := Dict.contains_iff.mp hl
  exact Dict.contains_iff.mpr ⟨l, h.linked file l hl⟩

/-- A package of the later set that was there before is the same package. -/
theorem package_of_later (h : s.Extends s') {name : String} {p q : Package}
    (hp : s.packages.get? name = some p) (hq : s'.packages.get? name = some q) : p.Extends q := by
  obtain ⟨q', hq', hpq⟩ := h.packages name p hp
  rw [hq, Option.some.injEq] at hq'
  exact hq' ▸ hpq

/-- Neither packages nor linked files change. -/
theorem of_same (hpackages : s'.packages = s.packages) (hbuilt : s'.built = s.built)
    (hlinked : s'.linked = s.linked) : s.Extends s' := by
  refine ⟨fun _ p hp => ⟨p, by rw [hpackages, hp], .refl p⟩, fun _ h => ?_, fun _ _ h => ?_⟩
  · rwa [hbuilt]
  · rwa [hlinked]

theorem of_update {name : String} {f : Package → Package}
    (hf : ∀ p, s.packages.get? name = some p → p.Extends (f p)) :
    s.Extends (s.update name f) where
  packages k p hp := by
    rw [get?_update]
    by_cases hk : k = name
    · subst hk
      exact ⟨f p, by rw [if_pos rfl, hp, Option.map_some], hf p hp⟩
    · exact ⟨p, by rw [if_neg hk, hp], .refl p⟩
  built _ hb := by rwa [built_update]
  linked _ _ hl := by rwa [linked_update]

/-- A package is marked as built and goes into the cache. -/
theorem of_built (s : PackageSet) (name : String) (built : BuiltPackage) :
    s.Extends { s.update name fun p => { p with state := .built } with
      built := s.built.insert name built } := by
  have hup : s.Extends (s.update name fun p => { p with state := .built }) :=
    .of_update fun q _ => ⟨PackageState.rank_le_built q.state, rfl, rfl, rfl, rfl, id⟩
  refine ⟨hup.packages, fun k hk => ?_, hup.linked⟩
  obtain ⟨b, hb⟩ := Dict.contains_iff.mp hk
  refine Dict.contains_iff.mpr ?_
  rw [Dict.get?_insert]
  by_cases hkn : k = name
  · exact ⟨built, if_pos hkn⟩
  · exact ⟨b, by rw [if_neg hkn, hb]⟩

end Extends
end PackageSet

theorem LoadStep.extends {r : Repository} {s s' : PackageSet} (h : LoadStep r s s') :
    s.Extends s' := by
  cases h with
  | @summarize name p hnew hlocal hsum =>
      refine ⟨fun k q hq => ⟨q, ?_, .refl q⟩, fun _ h => h, fun _ _ h => h⟩
      have hk : k ≠ name := by
        rintro rfl
        rw [hnew] at hq
        cases hq
      rw [Dict.get?_insert, if_neg hk, hq]
  | @resolve name p hp hstate hdeps =>
      refine .of_update fun q hq => ⟨?_, rfl, rfl, rfl, rfl, id⟩
      rw [hp, Option.some.injEq] at hq
      exact PackageState.rank_le_resolved (hq ▸ hstate)

theorem Step.extends {w : Workspace} {s s' : PackageSet} (h : Step w s s') : s.Extends s' := by
  cases h with
  | load h => exact h.extends
  | materialize name => exact .of_update fun _ _ => ⟨Nat.le_refl _, rfl, rfl, rfl, rfl, fun _ => rfl⟩
  | @link file f linked hnew himports hlinked =>
      refine ⟨fun _ p hp => ⟨p, hp, .refl p⟩, fun _ h => h, fun k l hl => ?_⟩
      have hk : k ≠ file := by
        rintro rfl
        rw [hnew] at hl
        cases hl
      rw [Dict.get?_insert, if_neg hk, hl]
  | build built => exact .of_built s _ built
  | note hpackages hbuilt hlinked => exact .of_same hpackages hbuilt hlinked

theorem Steps.extends {w : Workspace} {s s' : PackageSet} (h : Steps w s s') : s.Extends s' :=
  keeps_of_run (P := s.Extends) (fun _ _ hstep hs => hs.trans hstep.extends) h (.refl s)

theorem LoadSteps.extends {r : Repository} {s s' : PackageSet} (h : LoadSteps r s s') :
    s.Extends s' :=
  keeps_of_run (P := s.Extends) (fun _ _ hstep hs => hs.trans hstep.extends) h (.refl s)

end Schematic
