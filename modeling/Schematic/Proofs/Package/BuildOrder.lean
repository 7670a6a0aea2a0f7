import Schematic.Proofs.Order
import Schematic.Proofs.Package.Lifecycle

/-!
# The build order

Once the packages asked for are loaded, all that they need is there and has no cycle.  So
what is collected from a stack of names is exactly what they lead to, it can be sorted, and
the only way for the build order to fail is that loading fails.
-/

namespace Schematic

open Relation BuildM

/-! ## Collecting -/

namespace Workspace

/-- How many names the packages that were not seen yet can put on the stack. -/
def weight (seen : List String) (entries : List (String × Package)) : Nat :=
  entries.foldr (fun e n => (if e.1 ∈ seen then 0 else e.2.dependencies.length) + n) 0

theorem weight_cons (seen : List String) (e : String × Package) (rest : List (String × Package)) :
    weight seen (e :: rest) =
      (if e.1 ∈ seen then 0 else e.2.dependencies.length) + weight seen rest := rfl

theorem weight_nil_seen (packages : Dict Package) (names : List String) :
    names.length + weight [] packages.entries = collectSteps packages names := by
  simp [weight, collectSteps, Dict.values, List.foldr_map]

theorem weight_anti (name : String) (seen : List String) (entries : List (String × Package)) :
    weight (name :: seen) entries ≤ weight seen entries := by
  induction entries with
  | nil => exact Nat.le_refl _
  | cons e rest ih =>
      rw [weight_cons, weight_cons]
      by_cases hs : e.1 ∈ seen
      · rw [if_pos hs, if_pos (List.mem_cons_of_mem name hs)]
        omega
      · rw [if_neg hs]
        split <;> omega

/-- A package that is seen for the first time takes its share with it. -/
theorem weight_seen {name : String} {p : Package} {seen : List String}
    {entries : List (String × Package)} (hmem : (name, p) ∈ entries) (hnew : name ∉ seen) :
    p.dependencies.length + weight (name :: seen) entries ≤ weight seen entries := by
  induction entries with
  | nil => exact absurd hmem List.not_mem_nil
  | cons e rest ih =>
      rw [weight_cons, weight_cons]
      rcases List.mem_cons.mp hmem with rfl | hmem
      · rw [if_pos List.mem_cons_self, if_neg hnew]
        exact Nat.add_le_add_left (by have := weight_anti name seen rest; omega) _
      · have := ih hmem
        by_cases hs : e.1 ∈ seen
        · rw [if_pos hs, if_pos (List.mem_cons_of_mem name hs)]
          omega
        · rw [if_neg hs]
          split <;> omega

/-- The items collected from `stack` when those of `seen` were collected before. -/
structure Collected (s : PackageSet) (seen stack : List String) (items : List Order.Item) :
    Prop where
  nodup : (items.map Order.Item.name).Nodup
  fresh : ∀ n ∈ items.map Order.Item.name, n ∉ seen
  recorded : ∀ item ∈ items, ∃ p, s.packages.get? item.name = some p ∧
    item.blockedBy = p.dependencies
  named : ∀ n ∈ stack, n ∈ seen ∨ n ∈ items.map Order.Item.name
  closed : ∀ item ∈ items, ∀ d ∈ item.blockedBy, d ∈ seen ∨ d ∈ items.map Order.Item.name
  reached : ∀ n ∈ items.map Order.Item.name, ∃ m ∈ stack, ReflTransGen s.DependsOn m n

namespace Collected

variable {s : PackageSet} {seen stack : List String} {items : List Order.Item}

theorem nil : Collected s seen [] [] :=
  ⟨List.nodup_nil, by simp, by simp, by simp, by simp, by simp⟩

/-- A name that was seen before adds nothing. -/
theorem skip (h : Collected s seen stack items) {name : String} (hseen : name ∈ seen) :
    Collected s seen (name :: stack) items where
  nodup := h.nodup
  fresh := h.fresh
  recorded := h.recorded
  named n hn := by
    rcases List.mem_cons.mp hn with rfl | hn
    · exact Or.inl hseen
    · exact h.named n hn
  closed := h.closed
  reached n hn := by
    obtain ⟨m, hm, hpath⟩ := h.reached n hn
    exact ⟨m, List.mem_cons_of_mem name hm, hpath⟩

/-- A new name adds its package, and what that needs comes next. -/
theorem take {name : String} {p : Package} (hp : s.packages.get? name = some p)
    (hnew : name ∉ seen)
    (h : Collected s (name :: seen) (p.dependencies.reverse ++ stack) items) :
    Collected s seen (name :: stack) (⟨name, p.dependencies⟩ :: items) := by
  have hname : ∀ n, n ∈ name :: seen ∨ n ∈ items.map Order.Item.name →
      n ∈ seen ∨ n ∈ (⟨name, p.dependencies⟩ :: items).map Order.Item.name := by
    intro n hn
    rw [List.map_cons, List.mem_cons]
    rw [List.mem_cons] at hn
    tauto
  refine ⟨?_, fun n hn => ?_, fun item hi => ?_, fun n hn => ?_, fun item hi d hd => ?_,
    fun n hn => ?_⟩
  · rw [List.map_cons, List.nodup_cons]
    exact ⟨fun hmem => h.fresh name hmem List.mem_cons_self, h.nodup⟩
  · rw [List.map_cons] at hn
    rcases List.mem_cons.mp hn with rfl | hn
    · exact hnew
    · exact fun hs => h.fresh n hn (List.mem_cons_of_mem name hs)
  · rcases List.mem_cons.mp hi with rfl | hi
    · exact ⟨p, hp, rfl⟩
    · exact h.recorded item hi
  · rcases List.mem_cons.mp hn with rfl | hn
    · exact hname n (Or.inl List.mem_cons_self)
    · exact hname n (h.named n (List.mem_append_right _ hn))
  · rcases List.mem_cons.mp hi with rfl | hi
    · exact hname d (h.named d (List.mem_append_left _ (List.mem_reverse.mpr hd)))
    · exact hname d (h.closed item hi d hd)
  · rw [List.map_cons] at hn
    rcases List.mem_cons.mp hn with rfl | hn
    · exact ⟨n, List.mem_cons_self, ReflTransGen.refl⟩
    · obtain ⟨m, hm, hpath⟩ := h.reached n hn
      rcases List.mem_append.mp hm with hm | hm
      · exact ⟨name, List.mem_cons_self, .head ⟨p, hp, List.mem_reverse.mp hm⟩ hpath⟩
      · exact ⟨m, List.mem_cons_of_mem name hm, hpath⟩

end Collected

/-- Collecting from loaded packages comes to an end and finds every one of them. -/
theorem collect_of_resolved {s : PackageSet} (hs : s.Ordered) {steps : Nat}
    {seen stack : List String} (hstack : ∀ n ∈ stack, s.Resolved n)
    (hsteps : stack.length + weight seen s.packages.entries ≤ steps) :
    ∃ items, collect s.packages steps seen stack = .ok items ∧ Collected s seen stack items := by
  induction steps generalizing seen stack with
  | zero =>
      cases stack with
      | nil => exact ⟨[], rfl, .nil⟩
      | cons name rest => simp at hsteps
  | succ steps ih =>
      cases stack with
      | nil => exact ⟨[], rfl, .nil⟩
      | cons name rest =>
          have hrest : ∀ n ∈ rest, s.Resolved n := fun n hn => hstack n (List.mem_cons_of_mem _ hn)
          have hname := hstack name List.mem_cons_self
          rw [List.length_cons] at hsteps
          rw [collect]
          by_cases hseen : name ∈ seen
          · rw [if_pos (List.contains_iff_mem.mpr hseen)]
            have hless : rest.length + weight seen s.packages.entries ≤ steps := by omega
            obtain ⟨items, hitems, hcol⟩ := ih hrest hless
            exact ⟨items, hitems, hcol.skip hseen⟩
          · rw [if_neg (mt List.contains_iff_mem.mp hseen)]
            obtain ⟨p, hp, -⟩ := hstack name List.mem_cons_self
            have hweight := weight_seen (Dict.mem_entries hp) hseen
            obtain ⟨items, hitems, hcol⟩ : ∃ items,
                collect s.packages steps (name :: seen) (p.dependencies.reverse ++ rest) =
                  .ok items ∧
                Collected s (name :: seen) (p.dependencies.reverse ++ rest) items := by
              refine ih (fun n hn => ?_) ?_
              · rcases List.mem_append.mp hn with hn | hn
                · exact hs.closed name n hname ⟨p, hp, List.mem_reverse.mp hn⟩
                · exact hrest n hn
              · rw [List.length_append, List.length_reverse]
                omega
            refine ⟨⟨name, p.dependencies⟩ :: items, ?_, hcol.take hp hseen⟩
            simp only [hp, hitems]
            rfl

end Workspace

/-! ## Sorting what was collected -/

namespace PackageSet

/-- `order` has all that `names` lead to, each once and behind what it needs. -/
structure IsBuildOrder (s : PackageSet) (names order : List String) : Prop where
  nodup : order.Nodup
  mem_iff : ∀ n, n ∈ order ↔ ∃ m ∈ names, ReflTransGen s.DependsOn m n
  first : ∀ n ∈ order, ∀ d, s.DependsOn n d → order.idxOf d < order.idxOf n

theorem Ordered.resolved_of_path {s : PackageSet} (h : s.Ordered) {m n : String}
    (hm : s.Resolved m) (hpath : ReflTransGen s.DependsOn m n) : s.Resolved n := by
  induction hpath with
  | refl => exact hm
  | tail _ hstep ih => exact h.closed _ _ ih hstep

end PackageSet

namespace Workspace
namespace Collected

variable {s : PackageSet} {names : List String} {items : List Order.Item}

theorem blocks_iff {seen : List String} (h : Collected s seen names items) {a b : String} :
    Order.Blocks items a b ↔ b ∈ items.map Order.Item.name ∧ s.DependsOn b a := by
  constructor
  · rintro ⟨item, hmem, rfl, ha⟩
    obtain ⟨p, hp, hdeps⟩ := h.recorded item hmem
    exact ⟨List.mem_map_of_mem hmem, p, hp, hdeps ▸ ha⟩
  · rintro ⟨hb, q, hq, ha⟩
    obtain ⟨item, hmem, rfl⟩ := List.mem_map.mp hb
    obtain ⟨p, hp, hdeps⟩ := h.recorded item hmem
    rw [hp, Option.some.injEq] at hq
    exact ⟨item, hmem, rfl, by rw [hdeps, hq]; exact ha⟩

theorem wellFormed (h : Collected s [] names items) : Order.WellFormed items :=
  ⟨h.nodup, fun item hmem d hd => (h.closed item hmem d hd).resolve_left List.not_mem_nil⟩

theorem mem_iff (h : Collected s [] names items) (n : String) :
    n ∈ items.map Order.Item.name ↔ ∃ m ∈ names, ReflTransGen s.DependsOn m n := by
  refine ⟨h.reached n, ?_⟩
  rintro ⟨m, hm, hpath⟩
  induction hpath with
  | refl => exact (h.named m hm).resolve_left List.not_mem_nil
  | tail _ hstep ih => exact h.wellFormed.source_mem (h.blocks_iff.mpr ⟨ih, hstep⟩)

/-- What is collected from resolved packages has no cycle, so it can be sorted. -/
theorem sort (h : Collected s [] names items) (hs : s.Ordered)
    (hnames : ∀ n ∈ names, s.Resolved n) :
    ∃ order, Order.sort items = .ok order ∧ s.IsBuildOrder names order := by
  have hres : ∀ n ∈ items.map Order.Item.name, s.Resolved n := by
    intro n hn
    obtain ⟨m, hm, hpath⟩ := h.reached n hn
    exact hs.resolved_of_path (hnames m hm) hpath
  have hac : Acyclic (Order.Blocks items) := by
    refine hs.acyclic.swap.mono fun a b hab => ?_
    obtain ⟨hb, hdep⟩ := h.blocks_iff.mp hab
    exact ⟨hres b hb, hres a (h.wellFormed.source_mem hab), hdep⟩
  obtain ⟨order, hsort, hperm, hlt⟩ := Order.sort_of_acyclic h.wellFormed hac
  refine ⟨order, hsort, hperm.nodup_iff.mpr h.nodup, fun n => ?_, fun n hn d hd => ?_⟩
  · rw [hperm.mem_iff]
    exact h.mem_iff n
  · exact hlt d n (h.blocks_iff.mpr ⟨hperm.mem_iff.mp hn, hd⟩)

end Collected

/-! ## Loading first -/

variable (w : Workspace) {s : PackageSet}

theorem ensures_loadAll (names : List String) :
    Ensures (LoadSteps w.repository) (names.forM w.load) s
      (fun _ s' => ∀ n ∈ names, s'.Resolved n)
      fun e s' => ∃ n ∈ names, LoadFailure w.repository [] n e s' :=
  .forM (fun _ _ _ h => h.extends.resolved) fun n hn _ _ =>
    (w.ensures_load n).imp (fun _ h => h) (fun _ _ _ h => h) fun _ _ _ h => ⟨n, hn, h⟩

theorem exec_buildOrder_of_error {names : List String} {e : BuildError} {s' : PackageSet}
    (h : (names.forM w.load).exec s = (.error e, s')) :
    (w.buildOrder names).exec s = (.error e, s') := by
  rw [buildOrder, exec_bind, h]

/-- Once loading has succeeded the build order is found. -/
theorem exec_buildOrder_of_ok {names : List String} {s' : PackageSet} (hs : s.Ordered)
    (h : (names.forM w.load).exec s = (.ok (), s')) :
    s'.Ordered ∧ (∀ n ∈ names, s'.Resolved n) ∧
      ∃ order, (w.buildOrder names).exec s = (.ok order, s') ∧ s'.IsBuildOrder names order := by
  have hload := w.ensures_loadAll (s := s) names
  have hs' : s'.Ordered := LoadSteps.ordered (by simpa only [h] using hload.moves) hs
  have hres : ∀ n ∈ names, s'.Resolved n := by simpa only [h] using hload.ok () (by rw [h])
  obtain ⟨items, hitems, hcol⟩ := collect_of_resolved hs' hres (weight_nil_seen s'.packages names).le
  obtain ⟨order, hsort, horder⟩ := hcol.sort hs' hres
  refine ⟨hs', hres, order, ?_, horder⟩
  rw [buildOrder, exec_bind, h]
  simp only [exec_bind, exec_get, hitems, hsort, exec_pure]

/-- The build order lists what was asked for and all it needs, each once and behind what it
needs itself.  It fails only where loading fails, so sorting never does, and an error of
sorting can come only from the repository. -/
theorem buildOrder_dependencies_first {W : Workspace → Prop} (hs : Calls W {} s)
    (names : List String) :
    (∀ order s', (w.buildOrder names).exec s = (.ok order, s') →
      order.Nodup ∧
      (∀ n, n ∈ order ↔ ∃ m ∈ names, ReflTransGen s'.DependsOn m n) ∧
      ∀ n ∈ order, ∀ d, s'.DependsOn n d → d ∈ order ∧ order.idxOf d < order.idxOf n) ∧
    (∀ e s', (w.buildOrder names).exec s = (.error e, s') →
      (names.forM w.load).exec s = (.error e, s') ∧
      ∀ cause, e = .unordered cause → w.repository.Reports e) := by
  have hordered : s.Ordered := (hs.lifecycle PackageSet.lifecycle_empty).toOrdered
  have hload := w.ensures_loadAll (s := s) names
  rcases h : (names.forM w.load).exec s with ⟨e | ⟨⟩, s₁⟩
  · rw [w.exec_buildOrder_of_error h]
    refine ⟨fun order s' heq => (by cases heq), fun e' s' heq => ?_⟩
    cases heq
    refine ⟨rfl, fun cause hcause => ?_⟩
    obtain ⟨n, -, hfail⟩ := hload.error e (by rw [h])
    cases hfail with
    | circular => cases hcause
    | missing => cases hcause
    | unreadable hlocal hread => exact Repository.reports_of_summarize_error hread
  · obtain ⟨-, -, order, heq, horder⟩ := w.exec_buildOrder_of_ok hordered h
    rw [heq]
    refine ⟨fun order' s' heq => ?_, fun e' s' heq => by cases heq⟩
    cases heq
    refine ⟨horder.nodup, horder.mem_iff, fun n hn d hd => ⟨?_, horder.first n hn d hd⟩⟩
    obtain ⟨m, hm, hpath⟩ := (horder.mem_iff n).mp hn
    exact (horder.mem_iff d).mpr ⟨m, hm, hpath.tail hd⟩

theorem buildOrder_dependencies_first_twoPackages :
    Calls (· = twoPackages) {} (Call.after twoPackages {} (.buildOrder ["b.v1", "c.v1"])) ∧
    ∃ s', (twoPackages.buildOrder ["a.v1", "b.v1", "a.v1"]).exec
          (Call.after twoPackages {} (.buildOrder ["b.v1", "c.v1"])) = (.ok ["b.v1", "a.v1"], s') ∧
      ∀ n, n ∈ ["b.v1", "a.v1"] ↔
        ∃ m ∈ ["a.v1", "b.v1", "a.v1"], ReflTransGen s'.DependsOn m n := by
  have hs : Calls (· = twoPackages) {} (Call.after twoPackages {} (.buildOrder ["b.v1", "c.v1"])) :=
    .single ⟨twoPackages, rfl, _, rfl⟩
  obtain ⟨hok, -⟩ := twoPackages.buildOrder_dependencies_first hs ["a.v1", "b.v1", "a.v1"]
  exact ⟨hs, _, rfl, (hok _ _ rfl).2.1⟩

end Workspace
end Schematic
