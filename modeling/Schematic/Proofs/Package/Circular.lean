import Schematic.Proofs.Package.BuildOrder

/-!
# Circular dependencies

What a package needs is settled by the repository.  A package that leads to a cycle is never
resolved, since resolved packages need resolved ones without a cycle, and loading a
package that leads to none cannot fail on a repository that can be read.  So a cycle is
reported exactly where there is one, whatever was called before.
-/

namespace Schematic

open Relation BuildM

/-! ## The graph of a repository -/

namespace Repository

/-- `b` is a direct dependency of `a`. -/
def DependsOn (r : Repository) (a b : String) : Prop :=
  ∃ p, r.summarize a = .ok p ∧ b ∈ p.dependencies

/-- Some package that `name` leads to needs itself in the end. -/
def LeadsToCycle (r : Repository) (name : String) : Prop :=
  ∃ m, ReflTransGen r.DependsOn name m ∧ TransGen r.DependsOn m m

/-- All local packages can be read, and the repository is of one mind about which they are. -/
structure Readable (r : Repository) : Prop where
  reads : ∀ name, r.isLocal name = true → ∃ p, r.summarize name = .ok p
  consistent : r.Consistent

theorem Readable.isLocal_of_dependsOn {r : Repository} (hr : r.Readable) {a b : String}
    (h : r.DependsOn a b) : r.isLocal b = true := by
  obtain ⟨p, hp, hb⟩ := h
  exact isLocal_of_mem_dependencies hr.consistent hp hb

/-- A chain of direct dependencies from `name` that ends just before it would come back to one
of its own packages. -/
structure Circular (r : Repository) (name : String) (c : CircularDependency) : Prop where
  head : c.chain.head? = some name
  nodup : c.chain.Nodup
  path : c.chain.IsChain r.DependsOn
  last : ∃ last, c.chain.getLast? = some last ∧ r.DependsOn last c.dependency
  mem : c.dependency ∈ c.chain

end Repository

theorem transGen_of_isChain {α : Type} {r : α → α → Prop} {a b : α} {l : List α}
    (h : (a :: (l ++ [b])).IsChain r) : TransGen r a b := by
  induction l generalizing a with
  | nil => exact .single (List.isChain_pair.mp h)
  | cons x rest ih =>
      obtain ⟨hax, hrest⟩ := List.isChain_cons_cons.mp h
      exact .head hax (ih hrest)

namespace Repository

theorem circular_of_isChain {r : Repository} {name : String} {c : CircularDependency}
    (hstart : [name] <+: c.chain ++ [c.dependency]) (hnodup : c.chain.Nodup)
    (hpath : (c.chain ++ [c.dependency]).IsChain r.DependsOn) (hmem : c.dependency ∈ c.chain) :
    r.Circular name c := by
  obtain ⟨hchain, -, hlast⟩ := List.isChain_append.mp hpath
  have hne : c.chain ≠ [] := List.ne_nil_of_mem hmem
  refine ⟨?_, hnodup, hchain, ?_, hmem⟩
  · obtain ⟨x, rest, hcons⟩ := List.exists_cons_of_ne_nil hne
    rw [hcons, List.cons_append, List.cons_prefix_cons] at hstart
    rw [hcons, List.head?_cons, hstart.1]
  · exact ⟨c.chain.getLast hne, List.getLast?_eq_some_getLast hne,
      hlast _ (List.getLast?_eq_some_getLast hne) _ rfl⟩

theorem Circular.leadsToCycle {r : Repository} {name : String} {c : CircularDependency}
    (h : r.Circular name c) : r.LeadsToCycle name := by
  obtain ⟨last, hlast, hdep⟩ := h.last
  have hpath : (c.chain ++ [c.dependency]).IsChain r.DependsOn := by
    refine List.isChain_append.mpr ⟨h.path, List.isChain_singleton _, ?_⟩
    intro x hx y hy
    rw [hlast] at hx
    cases hx
    cases hy
    exact hdep
  refine ⟨c.dependency, ?_, ?_⟩
  · obtain ⟨rest, hrest⟩ := List.head?_eq_some_iff.mp h.head
    rw [hrest, List.cons_append] at hpath
    exact (transGen_of_isChain hpath).to_reflTransGen
  · obtain ⟨before, after, hsplit⟩ := List.append_of_mem h.mem
    rw [hsplit, List.append_assoc, List.cons_append, List.isChain_split] at hpath
    exact transGen_of_isChain hpath.2

end Repository

/-! ## Recorded dependencies -/

/-- What is recorded of the packages is what the repository says. -/
def PackageSet.Faithful (s : PackageSet) (r : Repository) : Prop :=
  ∀ name p, s.packages.get? name = some p →
    ∃ q, r.summarize name = .ok q ∧ q.dependencies = p.dependencies

namespace PackageSet

variable {s s' : PackageSet} {r : Repository}

theorem faithful_empty (r : Repository) : ({} : PackageSet).Faithful r := by
  intro name p hp
  cases hp

theorem Faithful.dependsOn (h : s.Faithful r) {a b : String} (hab : s.DependsOn a b) :
    r.DependsOn a b := by
  obtain ⟨p, hp, hb⟩ := hab
  obtain ⟨q, hq, hdeps⟩ := h a p hp
  exact ⟨q, hq, hdeps ▸ hb⟩

theorem Faithful.dependsOn_of_resolved (h : s.Faithful r) {a b : String} (ha : s.Resolved a)
    (hab : r.DependsOn a b) : s.DependsOn a b := by
  obtain ⟨p, hp, -⟩ := ha
  obtain ⟨q, hq, hdeps⟩ := h a p hp
  obtain ⟨q', hq', hb⟩ := hab
  rw [hq, Except.ok.injEq] at hq'
  exact ⟨p, hp, by rw [← hdeps, hq']; exact hb⟩

theorem Faithful.of_packages (h : s.Faithful r) (hpackages : s'.packages = s.packages) :
    s'.Faithful r := by
  intro name p hp
  rw [hpackages] at hp
  exact h name p hp

theorem Faithful.update (h : s.Faithful r) {name : String} {f : Package → Package}
    (hf : ∀ p, (f p).dependencies = p.dependencies) : (s.update name f).Faithful r := by
  intro k q hq
  rw [get?_update] at hq
  by_cases hk : k = name
  · rw [if_pos hk, Option.map_eq_some_iff] at hq
    obtain ⟨p, hp, rfl⟩ := hq
    rw [hf]
    exact h k p (hk ▸ hp)
  · rw [if_neg hk] at hq
    exact h k q hq

end PackageSet

theorem LoadStep.faithful {r : Repository} {s s' : PackageSet} (h : LoadStep r s s')
    (hs : s.Faithful r) : s'.Faithful r := by
  cases h with
  | @summarize name p hnew hlocal hsum =>
      intro k q hq
      rw [Dict.get?_insert] at hq
      by_cases hk : k = name
      · rw [if_pos hk, Option.some.injEq] at hq
        exact ⟨p, hk ▸ hsum, by rw [hq]⟩
      · rw [if_neg hk] at hq
        exact hs k q hq
  | resolve => exact hs.update fun _ => rfl

theorem LoadSteps.faithful {r : Repository} {s s' : PackageSet} (h : LoadSteps r s s')
    (hs : s.Faithful r) : s'.Faithful r :=
  keeps_of_run (fun _ _ hstep => hstep.faithful) h hs

theorem Step.faithful {w : Workspace} {s s' : PackageSet} (h : Step w s s')
    (hs : s.Faithful w.repository) : s'.Faithful w.repository := by
  cases h with
  | load h => exact h.faithful hs
  | materialize name => exact hs.update fun _ => rfl
  | link => exact hs.of_packages rfl
  | @build name p built hp hdeps hmaterialized hlinked =>
      have hup : (s.update name fun p => { p with state := .built }).Faithful w.repository :=
        hs.update fun _ => rfl
      exact hup.of_packages rfl
  | note hpackages => exact hs.of_packages hpackages

theorem Calls.faithful {r : Repository} {s s' : PackageSet}
    (h : Calls (fun w => w.repository = r) s s') (hs : s.Faithful r) : s'.Faithful r := by
  refine h.keeps (P := fun a => a.Faithful r) (fun w a b hw hcall ha => ?_) hs
  subst hw
  exact keeps_of_run (fun _ _ hstep => hstep.faithful) hcall.steps ha

/-! ## Loading one package -/

namespace PackageSet

variable {s : PackageSet} {r : Repository}

/-- From a resolved package the repository leads only to resolved ones, along edges that are
recorded. -/
theorem Faithful.resolved_of_path (h : s.Faithful r) (hs : s.Ordered) {a b : String}
    (ha : s.Resolved a) (hpath : ReflTransGen r.DependsOn a b) : s.Resolved b := by
  induction hpath with
  | refl => exact ha
  | tail _ hstep ih => exact hs.closed _ _ ih (h.dependsOn_of_resolved ih hstep)

theorem Faithful.not_leadsToCycle (h : s.Faithful r) (hs : s.Ordered) {name : String}
    (hname : s.Resolved name) : ¬ r.LeadsToCycle name := by
  rintro ⟨m, hpath, hcycle⟩
  have hm : s.Resolved m := h.resolved_of_path hs hname hpath
  -- Every edge of a path from `m` is one between resolved packages, and those have no cycle.
  have hlift : ∀ b, TransGen r.DependsOn m b →
      TransGen (fun a b => s.Resolved a ∧ s.Resolved b ∧ s.DependsOn a b) m b := by
    intro b hb
    induction hb with
    | single hstep =>
        have hdep := h.dependsOn_of_resolved hm hstep
        exact .single ⟨hm, hs.closed _ _ hm hdep, hdep⟩
    | tail hmb hstep ih =>
        have hres := h.resolved_of_path hs hm hmb.to_reflTransGen
        have hdep := h.dependsOn_of_resolved hres hstep
        exact ih.tail ⟨hres, hs.closed _ _ hres hdep, hdep⟩
  exact hs.acyclic m (hlift m hcycle)

end PackageSet

/-- On a repository that can be read, a local package fails to load only for a cycle. -/
theorem LoadFailure.circular_of_readable {r : Repository} (hr : r.Readable) {name : String}
    (hname : r.isLocal name = true) {e : BuildError} {s : PackageSet} (hs : s.Faithful r)
    (h : LoadFailure r [] name e s) : ∃ c, e = .circular c ∧ r.Circular name c := by
  cases h with
  | @circular c _ hstart hnodup hpath hmem =>
      have hedges : (c.chain ++ [c.dependency]).IsChain r.DependsOn :=
        hpath.imp fun _ _ hab => hs.dependsOn hab
      exact ⟨c, rfl, Repository.circular_of_isChain hstart hnodup hedges hmem⟩
  | @missing n _ hneed hlocal =>
      have hn : r.isLocal n = true := by
        rcases hneed with rfl | ⟨a, ha⟩
        · exact hname
        · exact hr.isLocal_of_dependsOn (hs.dependsOn ha)
      rw [hn] at hlocal
      cases hlocal
  | @unreadable n _ _ hlocal hread =>
      obtain ⟨p, hp⟩ := hr.reads n hlocal
      rw [hp] at hread
      cases hread

namespace Workspace

variable {r : Repository} {w : Workspace} {s : PackageSet} {name : String}

/-- Asking for the order of one local package either reports a cycle that is there, or
resolves all that the package leads to. -/
theorem buildOrder_outcome (hr : r.Readable) (hw : w.repository = r) (hs : s.Ordered)
    (hf : s.Faithful r) (hname : r.isLocal name = true) :
    (∃ c s', (w.buildOrder [name]).exec s = (.error (.circular c), s') ∧ r.Circular name c) ∨
    ∃ order s', (w.buildOrder [name]).exec s = (.ok order, s') ∧ name ∈ order ∧
      (∀ m, ReflTransGen r.DependsOn name m → s'.Resolved m) ∧ ¬ r.LeadsToCycle name := by
  subst hw
  have hload := w.ensures_loadAll (s := s) [name]
  have hf' := LoadSteps.faithful hload.moves hf
  rcases h : ([name].forM w.load).exec s with ⟨e | ⟨⟩, s'⟩
  · obtain ⟨n, hn, hfail⟩ := hload.error e (by rw [h])
    rw [h] at hf' hfail
    rw [List.mem_singleton] at hn
    subst hn
    obtain ⟨c, rfl, hc⟩ := hfail.circular_of_readable hr hname hf'
    exact Or.inl ⟨c, s', w.exec_buildOrder_of_error h, hc⟩
  · rw [h] at hf'
    obtain ⟨hs', hres, order, heq, horder⟩ := w.exec_buildOrder_of_ok hs h
    have hname' : s'.Resolved name := hres name List.mem_cons_self
    refine Or.inr ⟨order, s', heq, ?_, fun m => hf'.resolved_of_path hs' hname', ?_⟩
    · exact (horder.mem_iff name).mpr ⟨name, List.mem_cons_self, .refl⟩
    · exact hf'.not_leadsToCycle hs' hname'

/-- The order of one local package is refused exactly when the package leads to a cycle, after
every history of calls.  What is reported is a path from the package to a dependency that is
already on it, and no call makes the cycle go unnoticed later. -/
theorem buildOrder_circular_iff (hr : r.Readable) (hs : Calls (fun w => w.repository = r) {} s)
    (hw : w.repository = r) (hname : r.isLocal name = true) :
    ((∃ c s', (w.buildOrder [name]).exec s = (.error (.circular c), s')) ↔
      ∃ m, ReflTransGen r.DependsOn name m ∧ TransGen r.DependsOn m m) ∧
    ((¬ ∃ m, ReflTransGen r.DependsOn name m ∧ TransGen r.DependsOn m m) →
      ∃ order s', (w.buildOrder [name]).exec s = (.ok order, s') ∧ name ∈ order ∧
        ∀ m, ReflTransGen r.DependsOn name m → s'.Resolved m) ∧
    ∀ c s', (w.buildOrder [name]).exec s = (.error (.circular c), s') →
      c.chain.head? = some name ∧ c.chain.Nodup ∧ c.chain.IsChain r.DependsOn ∧
      (∃ last, c.chain.getLast? = some last ∧ r.DependsOn last c.dependency) ∧
      c.dependency ∈ c.chain ∧
      ∀ s₁, Calls (fun w => w.repository = r) s' s₁ →
        ∃ c' s₂, (w.buildOrder [name]).exec s₁ = (.error (.circular c'), s₂) := by
  have houtcome : ∀ s₁, Calls (fun w => w.repository = r) {} s₁ → _ := fun s₁ h₁ =>
    buildOrder_outcome hr hw (h₁.lifecycle PackageSet.lifecycle_empty).toOrdered
      (h₁.faithful (PackageSet.faithful_empty r)) hname
  rcases houtcome s hs with ⟨c, s', heq, hc⟩ | ⟨order, s', heq, hmem, hres, hno⟩
  · refine ⟨iff_of_true ⟨c, s', heq⟩ hc.leadsToCycle, fun hno => absurd hc.leadsToCycle hno, ?_⟩
    intro c' s'' heq'
    rw [heq] at heq'
    cases heq'
    refine ⟨hc.head, hc.nodup, hc.path, hc.last, hc.mem, fun s₁ h₁ => ?_⟩
    have hcall : Calls (fun w => w.repository = r) {} s' :=
      hs.tail ⟨w, hw, .buildOrder [name], by rw [Call.after, heq]⟩
    rcases houtcome s₁ (hcall.trans h₁) with ⟨c', s₂, heq', -⟩ | ⟨_, _, _, _, _, hno⟩
    · exact ⟨c', s₂, heq'⟩
    · exact absurd hc.leadsToCycle hno
  · refine ⟨iff_of_false ?_ hno, fun _ => ⟨order, s', heq, hmem, hres⟩, ?_⟩
    · rintro ⟨c, s₁, heq'⟩
      rw [heq] at heq'
      cases heq'
    · intro c s₁ heq'
      rw [heq] at heq'
      cases heq'

/-- `a.v1` needs `b.v1`, which is in a circle with `c.v1`. -/
def circle : Workspace where
  repository :=
    { packages := .ofList
        [("a.v1", .ok { sources := [.ofParsed
            ⟨{ name := some "a/v1/a.proto", dependencies := ["b/v1/b.proto"] }, {}⟩ none] }),
         ("b.v1", .ok { sources := [.ofParsed
            ⟨{ name := some "b/v1/b.proto", dependencies := ["c/v1/c.proto"] }, {}⟩ none] }),
         ("c.v1", .ok { sources := [.ofParsed
            ⟨{ name := some "c/v1/c.proto", dependencies := ["b/v1/b.proto"] }, {}⟩ none] })] }
  catalog := {}

theorem readable_circle : circle.repository.Readable where
  reads name hname := by
    have hmem : name ∈ ["a.v1", "b.v1", "c.v1"] := Dict.mem_keys hname
    simp only [List.mem_cons, List.not_mem_nil, or_false] at hmem
    rcases hmem with rfl | rfl | rfl
    · exact ⟨_, rfl⟩
    · exact ⟨_, rfl⟩
    · exact ⟨_, rfl⟩
  consistent file name isLocal h := by
    cases h
    rfl

theorem buildOrder_circular_iff_circle :
    circle.repository.Readable ∧ circle.repository.isLocal "a.v1" = true ∧
    ∃ c s', (circle.buildOrder ["a.v1"]).exec (Call.after circle {} (.compile "c.v1")) =
        (.error (.circular c), s') ∧
      c.chain.head? = some "a.v1" ∧ c.dependency ∈ c.chain ∧
      ∃ c' s'', (circle.buildOrder ["a.v1"]).exec s' = (.error (.circular c'), s'') := by
  have hs : Calls (fun w => w.repository = circle.repository) {}
      (Call.after circle {} (.compile "c.v1")) := .single ⟨circle, rfl, _, rfl⟩
  have hab : circle.repository.DependsOn "a.v1" "b.v1" := ⟨_, rfl, by decide⟩
  have hbc : circle.repository.DependsOn "b.v1" "c.v1" := ⟨_, rfl, by decide⟩
  have hcb : circle.repository.DependsOn "c.v1" "b.v1" := ⟨_, rfl, by decide⟩
  obtain ⟨hiff, -, hfail⟩ :=
    buildOrder_circular_iff readable_circle hs (rfl : circle.repository = _)
      (by decide : circle.repository.isLocal "a.v1" = true)
  obtain ⟨c, s', heq⟩ := hiff.mpr ⟨"b.v1", .single hab, .head hbc (.single hcb)⟩
  obtain ⟨hhead, -, -, -, hmem, hagain⟩ := hfail c s' heq
  exact ⟨readable_circle, by decide, c, s', heq, hhead, hmem, hagain s' .refl⟩

end Workspace
end Schematic
