import Schematic.Proofs.Package.Ensures
import Schematic.Proofs.Package.Repository
import Schematic.Proofs.Package.Step
import Mathlib.Data.List.Chain
import Mathlib.Data.List.Nodup

/-!
# Loading

Loading goes down the direct dependencies and marks a package as resolved on the way up.
So resolved packages need resolved packages only, and never each other in a circle.  Its
depth is bounded by the number of local packages, and the bound is never reached: the
packages under way are distinct and local.
-/

namespace Schematic

open Relation BuildM

/-! ## Resolved packages -/

/-- Resolved packages need resolved packages only, and not in a circle. -/
structure PackageSet.Ordered (s : PackageSet) : Prop where
  closed : ∀ a b, s.Resolved a → s.DependsOn a b → s.Resolved b
  acyclic : Acyclic fun a b => s.Resolved a ∧ s.Resolved b ∧ s.DependsOn a b

namespace PackageSet

theorem ordered_empty : ({} : PackageSet).Ordered where
  closed a _ h := by
    obtain ⟨p, hp, -⟩ := h
    cases hp
  acyclic := Acyclic.of_rank (fun _ => 0) fun a _ h => by
    obtain ⟨p, hp, -⟩ := h.1
    cases hp

/-- A package may be marked as resolved when all that it needs is. -/
theorem Ordered.raise {s s' : PackageSet} {name : String} (h : s.Ordered)
    (hdep : ∀ a b, s'.DependsOn a b ↔ s.DependsOn a b)
    (hres : ∀ n, s'.Resolved n ↔ s.Resolved n ∨ n = name)
    (hname : ∀ d, s.DependsOn name d → s.Resolved d) : s'.Ordered := by
  constructor
  · intro a b ha hab
    rw [hdep] at hab
    rw [hres] at ha ⊢
    rcases ha with ha | rfl
    · exact Or.inl (h.closed a b ha hab)
    · exact Or.inl (hname b hab)
  · by_cases hn : s.Resolved name
    · refine h.acyclic.mono fun a b hab => ?_
      have hall : ∀ n, s'.Resolved n → s.Resolved n := fun n hr =>
        ((hres n).mp hr).elim id fun heq => heq ▸ hn
      exact ⟨hall a hab.1, hall b hab.2.1, (hdep a b).mp hab.2.2⟩
    · -- No resolved package needs `name`, which was not resolved until now.
      refine h.acyclic.of_source (x := name) (fun a b hab => ?_) fun a hab => ?_
      · obtain ⟨ha, -, hab⟩ := hab
        rw [hdep] at hab
        refine ((hres a).mp ha).imp (fun ha => ?_) id
        exact ⟨ha, h.closed a b ha hab, hab⟩
      · obtain ⟨ha, -, hab⟩ := hab
        rw [hdep] at hab
        rcases (hres a).mp ha with ha | rfl
        · exact hn (h.closed a name ha hab)
        · exact hn (hname a hab)

/-- Setting the state of a package leaves what the packages need. -/
theorem dependsOn_setState {s : PackageSet} {name : String} {state : PackageState} (a b : String) :
    (s.update name fun p => { p with state }).DependsOn a b ↔ s.DependsOn a b := by
  simp only [DependsOn, get?_update]
  by_cases ha : a = name
  · subst ha
    simp only [if_true, Option.map_eq_some_iff]
    constructor
    · rintro ⟨_, ⟨p, hp, rfl⟩, hb⟩
      exact ⟨p, hp, hb⟩
    · rintro ⟨p, hp, hb⟩
      exact ⟨_, ⟨p, hp, rfl⟩, hb⟩
  · simp only [if_neg ha]

theorem resolved_setState {s : PackageSet} {name : String} {p : Package} {state : PackageState}
    (hp : s.packages.get? name = some p) (hstate : PackageState.resolved.rank ≤ state.rank)
    (n : String) :
    (s.update name fun p => { p with state }).Resolved n ↔ s.Resolved n ∨ n = name := by
  simp only [Resolved, get?_update_of_some hp]
  by_cases hn : n = name
  · simp [hn, hstate]
  · simp [hn]

end PackageSet

theorem LoadStep.ordered {r : Repository} {s s' : PackageSet} (h : LoadStep r s s')
    (hs : s.Ordered) : s'.Ordered := by
  cases h with
  | @summarize name p hnew hlocal hsum =>
      have hstate := Repository.state_of_summarize hsum
      have hres : ∀ n, PackageSet.Resolved { s with packages := s.packages.insert name p } n →
          n ≠ name ∧ s.Resolved n := by
        rintro n ⟨q, hq, hrank⟩
        rw [Dict.get?_insert] at hq
        by_cases hn : n = name
        · rw [if_pos hn, Option.some.injEq] at hq
          subst hq
          rw [hstate] at hrank
          exact absurd hrank (by decide)
        · rw [if_neg hn] at hq
          exact ⟨hn, q, hq, hrank⟩
      have hdep : ∀ a b, a ≠ name →
          PackageSet.DependsOn { s with packages := s.packages.insert name p } a b →
          s.DependsOn a b := by
        rintro a b ha ⟨q, hq, hb⟩
        rw [Dict.get?_insert, if_neg ha] at hq
        exact ⟨q, hq, hb⟩
      constructor
      · intro a b ha hab
        obtain ⟨hne, ha⟩ := hres a ha
        exact (LoadStep.summarize hnew hlocal hsum).extends.resolved
          (hs.closed a b ha (hdep a b hne hab))
      · refine hs.acyclic.mono fun a b hab => ?_
        obtain ⟨hne, ha⟩ := hres a hab.1
        exact ⟨ha, (hres b hab.2.1).2, hdep a b hne hab.2.2⟩
  | @resolve name p hp hstate hdeps =>
      refine hs.raise PackageSet.dependsOn_setState
        (PackageSet.resolved_setState hp (Nat.le_refl _)) fun d hd => ?_
      obtain ⟨q, hq, hd⟩ := hd
      rw [hp, Option.some.injEq] at hq
      exact hdeps d (hq ▸ hd)

theorem LoadSteps.ordered {r : Repository} {s s' : PackageSet} (h : LoadSteps r s s')
    (hs : s.Ordered) : s'.Ordered :=
  keeps_of_run (fun _ _ hstep => hstep.ordered) h hs

/-- Loading builds nothing. -/
theorem LoadStep.built {r : Repository} {s s' : PackageSet} (h : LoadStep r s s') {n : String}
    (hb : s'.Built n) : s.Built n := by
  obtain ⟨q, hq, hbuilt⟩ := hb
  cases h with
  | @summarize name p hnew hlocal hsum =>
      rw [Dict.get?_insert] at hq
      by_cases hn : n = name
      · rw [if_pos hn, Option.some.injEq] at hq
        rw [← hq, Repository.state_of_summarize hsum] at hbuilt
        cases hbuilt
      · rw [if_neg hn] at hq
        exact ⟨q, hq, hbuilt⟩
  | @resolve name p hp hstate hdeps =>
      rw [PackageSet.get?_update_of_some hp] at hq
      by_cases hn : n = name
      · rw [if_pos hn, Option.some.injEq] at hq
        rw [← hq] at hbuilt
        cases hbuilt
      · rw [if_neg hn] at hq
        exact ⟨q, hq, hbuilt⟩

theorem LoadSteps.built {r : Repository} {s s' : PackageSet} (h : LoadSteps r s s') {n : String}
    (hb : s'.Built n) : s.Built n :=
  keeps_of_run (P := fun a => a.Built n → s.Built n) (fun _ _ hstep hs hb => hs (hstep.built hb)) h
    id hb

/-! ## How loading fails -/

/-- The reasons why loading `name` from the end of `chain` fails: dependencies that lead
back into the chain, a package that is not local, or one that cannot be read. -/
inductive LoadFailure (r : Repository) (chain : List String) (name : String) :
    BuildError → PackageSet → Prop where
  | circular {c : CircularDependency} {s : PackageSet}
      (hstart : chain ++ [name] <+: c.chain ++ [c.dependency]) (hnodup : c.chain.Nodup)
      (hpath : (c.chain ++ [c.dependency]).IsChain s.DependsOn) (hmem : c.dependency ∈ c.chain) :
      LoadFailure r chain name (.circular c) s
  | missing {n : String} {s : PackageSet} (hneed : n = name ∨ ∃ a, s.DependsOn a n)
      (hlocal : r.isLocal n = false) : LoadFailure r chain name (.packageNotFound n) s
  | unreadable {n : String} {e : BuildError} {s : PackageSet} (hlocal : r.isLocal n = true)
      (hread : r.summarize n = .error e) : LoadFailure r chain name e s

/-- Why a dependency cannot be loaded is why the package that needs it cannot be. -/
theorem LoadFailure.of_dependency {r : Repository} {chain : List String} {name d : String}
    {e : BuildError} {s : PackageSet} (h : LoadFailure r (chain ++ [name]) d e s)
    (hd : s.DependsOn name d) : LoadFailure r chain name e s := by
  cases h with
  | circular hstart hnodup hpath hmem =>
      exact .circular ((List.prefix_append _ _).trans hstart) hnodup hpath hmem
  | missing hneed hlocal => exact .missing (Or.inr (hneed.elim (fun h => ⟨name, h ▸ hd⟩) id)) hlocal
  | unreadable hlocal hread => exact .unreadable hlocal hread

namespace Workspace

variable (w : Workspace) {s : PackageSet}

theorem ensures_isResolved {R : PackageSet → PackageSet → Prop} [Std.Refl R]
    {E : BuildError → PackageSet → Prop} (name : String) :
    Ensures R (isResolved name) s (fun b s' => s' = s ∧ (b = true ↔ s.Resolved name)) E := by
  refine .get (.pure ⟨rfl, ?_⟩)
  rw [PackageSet.state?, PackageSet.Resolved]
  cases s.packages.get? name with
  | none => simp
  | some p => simp

theorem ensures_summarized {chain : List String} {name : String}
    (hlocal : w.repository.isLocal name = true) :
    Ensures (LoadSteps w.repository) (w.summarized name) s
      (fun p s' => s'.packages.get? name = some p) (LoadFailure w.repository chain name) := by
  refine .get ?_
  cases hp : s.packages.get? name with
  | some p => exact .pure hp
  | none =>
      refine .bind (P := fun p s' => s' = s ∧ w.repository.summarize name = .ok p)
        (.lift (fun p h => ⟨rfl, h⟩) fun e h => .unreadable hlocal h) ?_
      rintro p s' - ⟨rfl, hsum⟩
      refine .bind (P := fun _ s' => s'.packages.get? name = some p)
        (.modify (ReflTransGen.single (.summarize hp hlocal hsum)) ?_) fun _ _ _ h => .pure h
      rw [Dict.get?_insert, if_pos rfl]

/-- The chain cannot grow beyond the local packages. -/
theorem length_le_of_local {chain : List String} (hnodup : chain.Nodup)
    (hlocal : ∀ n ∈ chain, w.repository.isLocal n = true) :
    chain.length ≤ w.repository.packages.size := by
  have hsub : chain ⊆ w.repository.packages.keys := fun n hn => Dict.mem_keys (hlocal n hn)
  have hle := (hnodup.subperm hsub).length_le
  rwa [Dict.keys, List.length_map] at hle

/-- A package joins the chain unless it is in it. -/
theorem ensures_enter {R : PackageSet → PackageSet → Prop} [Std.Refl R] {chain : LoadChain}
    {name : String} (hnodup : chain.packages.Nodup)
    (hpath : (chain.packages ++ [name]).IsChain s.DependsOn) :
    Ensures R (BuildM.lift ((chain.enter name).mapError .circular)) s
      (fun entered s' => s' = s ∧ name ∉ chain.packages ∧
        entered.packages = chain.packages ++ [name])
      (LoadFailure w.repository chain.packages name) := by
  by_cases hin : name ∈ chain.packages
  · have henter : chain.enter name = .error ⟨chain.packages, name⟩ := by
      rw [LoadChain.enter, if_pos (List.contains_iff_mem.mpr hin)]
    rw [henter]
    exact .throw (.circular (List.prefix_refl _) hnodup hpath hin)
  · have henter : chain.enter name = .ok ⟨chain.packages ++ [name]⟩ := by
      rw [LoadChain.enter, if_neg (mt List.contains_iff_mem.mp hin)]
    rw [henter]
    exact .pure ⟨rfl, hin, rfl⟩

/-- A package all of whose dependencies are resolved is marked as resolved. -/
theorem ensures_resolve {E : BuildError → PackageSet → Prop} {name : String} {p : Package}
    (hp : s.packages.get? name = some p) (hbuilt : ¬ s.Built name)
    (hdeps : ∀ d ∈ p.dependencies, s.Resolved d) :
    Ensures (LoadSteps w.repository)
      (modify fun s => s.update name fun p => { p with state := .resolved }) s
      (fun _ s' => s'.Resolved name) E := by
  refine .modify (ReflTransGen.single (.resolve hp (fun h => hbuilt ⟨p, hp, h⟩) hdeps)) ?_
  rw [PackageSet.resolved_setState hp (Nat.le_refl _)]
  exact Or.inr rfl

/-- Loading succeeds with the package resolved, or fails for one of the reasons above. -/
theorem ensures_loadFrom {depth : Nat} {chain : LoadChain} {name : String}
    (hnodup : chain.packages.Nodup)
    (hlocal : ∀ n ∈ chain.packages, w.repository.isLocal n = true)
    (hpath : (chain.packages ++ [name]).IsChain s.DependsOn)
    (hdepth : depth + chain.packages.length = w.repository.packages.size + 2) :
    Ensures (LoadSteps w.repository) (w.loadFrom depth chain name) s
      (fun _ s' => s'.Resolved name) (LoadFailure w.repository chain.packages name) := by
  induction depth generalizing chain name s with
  | zero =>
      have hle := w.length_le_of_local hnodup hlocal
      omega
  | succ depth ih =>
      rw [loadFrom]
      refine .bind (w.ensures_enter hnodup hpath) ?_
      rintro entered s' - ⟨rfl, hnew, hentered⟩
      refine .bind (ensures_isResolved name) ?_
      rintro b s - ⟨rfl, hb⟩
      by_cases hres : b = true
      · rw [if_pos hres]
        exact .pure (hb.mp hres)
      rw [if_neg hres]
      by_cases hloc : w.repository.isLocal name = true
      · rw [if_pos hloc]
        refine .bind (w.ensures_summarized hloc) fun p s₁ h₁ hp => ?_
        have hdep : ∀ d ∈ p.dependencies, s₁.DependsOn name d := fun d hd => ⟨p, hp, hd⟩
        refine .bind (P := fun _ s' => ∀ d ∈ p.dependencies, s'.Resolved d)
          (.forM (fun d _ _ h => h.extends.resolved) fun d hd s' h' => ?_) fun _ s₂ h₂ hdeps => ?_
        · have hext : s.Extends s' := h₁.extends.trans h'.extends
          refine (ih (?_ : entered.packages.Nodup) ?_ ?_ ?_).imp (fun _ h => h)
            (fun _ _ _ h => h) fun e s'' h'' hfail => ?_
          · rw [hentered]
            exact hnodup.append (List.nodup_singleton name) (by simpa using hnew)
          · intro n hn
            rw [hentered, List.mem_append, List.mem_singleton] at hn
            exact hn.elim (hlocal n) fun h => h ▸ hloc
          · rw [hentered, List.append_assoc, List.singleton_append, List.isChain_split,
              List.isChain_pair]
            exact ⟨hpath.imp fun _ _ => hext.dependsOn, h'.extends.dependsOn (hdep d hd)⟩
          · rw [hentered, List.length_append, List.length_singleton]
            omega
          · rw [hentered] at hfail
            exact hfail.of_dependency ((h'.extends.trans h''.extends).dependsOn (hdep d hd))
        · obtain ⟨q, hq, hpq⟩ := h₂.extends.packages name p hp
          refine w.ensures_resolve hq (fun hbuilt => hres (hb.mpr ?_)) fun d hd => ?_
          · exact (h₁.built (h₂.built hbuilt)).resolved
          · exact hdeps d (hpq.dependencies ▸ hd)
      · rw [if_neg hloc]
        exact .throw (.missing (Or.inl rfl) (by simpa using hloc))

theorem ensures_load (name : String) :
    Ensures (LoadSteps w.repository) (w.load name) s (fun _ s' => s'.Resolved name)
      (LoadFailure w.repository [] name) :=
  w.ensures_loadFrom List.nodup_nil (fun _ h => absurd h List.not_mem_nil)
    (List.isChain_singleton name) rfl

end Workspace
end Schematic
