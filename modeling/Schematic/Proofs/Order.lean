import Schematic.Order
import Schematic.Proofs.Acyclic
import Schematic.Proofs.Dict
import Mathlib.Data.List.Nodup
import Mathlib.Data.List.Perm.Lattice

/-!
# Sorting puts every blocker first

The items are the nodes of a graph, and an edge leads from a blocker to what it blocks.
While items are retired, the count of an item is the number of edges left into it, and
the items retired or ready are those of count zero.  So no count is ever lowered below
zero, an item is ready only after all that blocks it, and edges stay behind exactly when
there is a cycle.
-/

namespace Schematic
namespace Order

open Relation

/-! ## The graph -/

/-- `a` must come before `b`. -/
def Blocks (items : List Item) (a b : String) : Prop :=
  ∃ item ∈ items, item.name = b ∧ a ∈ item.blockedBy

/-- No two items have one name, and every blocker is an item. -/
structure WellFormed (items : List Item) : Prop where
  nodup : (items.map Item.name).Nodup
  known : ∀ item ∈ items, ∀ b ∈ item.blockedBy, b ∈ items.map Item.name

theorem duplicate?_eq_none_iff {seen : List String} {items : List Item} :
    duplicate? seen items = none ↔
      (items.map Item.name).Nodup ∧ ∀ name ∈ items.map Item.name, name ∉ seen := by
  induction items generalizing seen with
  | nil => simp [duplicate?]
  | cons item rest ih =>
      rw [duplicate?]
      by_cases h : item.name ∈ seen
      · simp [h]
      · rw [if_neg h, ih, List.map_cons, List.nodup_cons]
        constructor
        · rintro ⟨hnd, hseen⟩
          refine ⟨⟨fun hmem => hseen _ hmem List.mem_cons_self, hnd⟩, fun name hname => ?_⟩
          rcases List.mem_cons.mp hname with rfl | hname
          · exact h
          · exact fun hs => hseen name hname (List.mem_cons_of_mem _ hs)
        · rintro ⟨⟨hhead, hnd⟩, hseen⟩
          refine ⟨hnd, fun name hname hmem => ?_⟩
          rcases List.mem_cons.mp hmem with rfl | hmem
          · exact hhead hname
          · exact hseen name (List.mem_cons_of_mem _ hname) hmem

theorem unknown?_eq_none_iff {items : List Item} :
    unknown? items = none ↔
      ∀ item ∈ items, ∀ b ∈ item.blockedBy, b ∈ items.map Item.name := by
  simp only [unknown?, List.findSome?_eq_none_iff, Option.map_eq_none_iff,
    List.find?_eq_none, Bool.not_eq_true', Bool.not_eq_false, List.contains_iff_mem]

theorem wellFormed_iff {items : List Item} :
    WellFormed items ↔ duplicate? [] items = none ∧ unknown? items = none := by
  rw [duplicate?_eq_none_iff, unknown?_eq_none_iff]
  exact ⟨fun h => ⟨⟨h.nodup, fun _ _ => List.not_mem_nil⟩, h.known⟩,
    fun h => ⟨h.1.1, h.2⟩⟩

theorem mem_targets {items : List Item} {a t : String} :
    t ∈ targets items a ↔ Blocks items a t := by
  simp only [targets, Blocks, List.mem_map, List.mem_filter, List.contains_iff_mem]
  constructor
  · rintro ⟨item, ⟨hmem, ha⟩, rfl⟩
    exact ⟨item, hmem, rfl, ha⟩
  · rintro ⟨item, hmem, rfl, ha⟩
    exact ⟨item, ⟨hmem, ha⟩, rfl⟩

theorem mem_edges {items : List Item} {e : Edge} :
    e ∈ edges items ↔ e.source ∈ items.map Item.name ∧ Blocks items e.source e.target := by
  simp only [edges, List.mem_flatMap, List.mem_map]
  constructor
  · rintro ⟨item, hmem, t, ht, rfl⟩
    exact ⟨⟨item, hmem, rfl⟩, mem_targets.mp ht⟩
  · rintro ⟨⟨item, hmem, hname⟩, hb⟩
    refine ⟨item, hmem, e.target, mem_targets.mpr (hname ▸ hb), ?_⟩
    rw [hname]

namespace WellFormed

variable {items : List Item} (h : WellFormed items)
include h

theorem source_mem {a b : String} (hab : Blocks items a b) : a ∈ items.map Item.name := by
  obtain ⟨item, hmem, -, ha⟩ := hab
  exact h.known item hmem a ha

theorem mem_edges_iff {e : Edge} : e ∈ edges items ↔ Blocks items e.source e.target := by
  rw [mem_edges]
  exact ⟨And.right, fun hb => ⟨h.source_mem hb, hb⟩⟩

theorem targets_nodup (a : String) : (targets items a).Nodup :=
  h.nodup.sublist (List.filter_sublist.map Item.name)

theorem edges_nodup : (edges items).Nodup := by
  rw [edges, List.nodup_flatMap]
  constructor
  · intro item _
    exact (h.targets_nodup item.name).map fun _ _ heq => congrArg Edge.target heq
  · refine (List.pairwise_map.mp h.nodup).imp ?_
    intro a b hab e ha hb
    obtain ⟨_, -, rfl⟩ := List.mem_map.mp ha
    obtain ⟨_, -, hb⟩ := List.mem_map.mp hb
    exact hab (congrArg Edge.source hb).symm

end WellFormed

theorem target_mem {items : List Item} {a b : String} (hab : Blocks items a b) :
    b ∈ items.map Item.name := by
  obtain ⟨item, hmem, rfl, -⟩ := hab
  exact List.mem_map_of_mem hmem

/-! ## In-degrees -/

theorem inDegree_eq_countP (es : List Edge) (name : String) :
    inDegree es name = es.countP fun e => e.target == name := by
  rw [inDegree, List.countP_eq_length_filter]

theorem inDegree_eq_zero {es : List Edge} {name : String} :
    inDegree es name = 0 ↔ ∀ e ∈ es, e.target ≠ name := by
  simp [inDegree_eq_countP, List.countP_eq_zero]

theorem inDegree_pos {es : List Edge} {e : Edge} (h : e ∈ es) : 0 < inDegree es e.target := by
  rw [inDegree_eq_countP, List.countP_pos_iff]
  exact ⟨e, h, beq_self_eq_true _⟩

theorem inDegree_erase {es : List Edge} {e : Edge} (h : e ∈ es) (name : String) :
    inDegree (es.erase e) name = inDegree es name - if name = e.target then 1 else 0 := by
  rw [inDegree_eq_countP, inDegree_eq_countP, List.countP_erase]
  by_cases hn : name = e.target
  · simp [h, hn]
  · simp [hn, Ne.symm hn]

/-! ## The loop

An item is retired in two strokes.  It leaves the queue first, and then the edges that
leave it go one by one.  `Sound` holds after each single edge, `Settled` only when all
edges of the retired items are gone. -/

/-- Every item stands behind all that blocks it. -/
def Legal (items : List Item) (order : List String) : Prop :=
  ∀ before name after, order = before ++ name :: after → ∀ b, Blocks items b name → b ∈ before

theorem Legal.nil (items : List Item) : Legal items [] := by
  intro before name after h
  simp at h

theorem Legal.snoc {items : List Item} {order : List String} {name : String}
    (h : Legal items order) (hname : ∀ b, Blocks items b name → b ∈ order) :
    Legal items (order ++ [name]) := by
  intro before x after heq b hb
  rcases List.append_eq_append_iff.mp heq with ⟨more, hbefore, hlast⟩ | ⟨more, horder, hlast⟩
  · obtain ⟨rfl, hx⟩ : more = [] ∧ [name] = x :: after := by
      cases more with
      | nil => exact ⟨rfl, hlast⟩
      | cons _ _ => simp at hlast
    rw [List.cons.injEq] at hx
    rw [hbefore, List.append_nil]
    exact hname b (hx.1 ▸ hb)
  · cases more with
    | nil =>
        rw [List.nil_append, List.cons.injEq] at hlast
        rw [List.append_nil] at horder
        exact horder ▸ hname b (hlast.1 ▸ hb)
    | cons y more =>
        rw [List.cons_append, List.cons.injEq] at hlast
        exact h before y more horder b (hlast.1 ▸ hb)

/-- In an order without repetition, what stands before an item has a smaller index. -/
theorem Legal.idxOf_lt {items : List Item} {order : List String} (h : Legal items order)
    (hnd : order.Nodup) {a b : String} (hb : b ∈ order) (hab : Blocks items a b) :
    order.idxOf a < order.idxOf b := by
  obtain ⟨before, after, rfl⟩ := List.append_of_mem hb
  have ha : a ∈ before := h before b after rfl a hab
  have hb' : b ∉ before := fun hmem =>
    List.disjoint_of_nodup_append hnd hmem List.mem_cons_self
  rw [List.idxOf_append_of_mem ha, List.idxOf_append_of_notMem hb', List.idxOf_cons_self,
    Nat.add_zero]
  exact List.idxOf_lt_length_of_mem ha

namespace Progress

structure Sound (items : List Item) (p : Progress) : Prop where
  count : ∀ name, p.count name = inDegree p.edges name
  queued : ∀ name, name ∈ p.done ++ p.ready ↔
    name ∈ items.map Item.name ∧ inDegree p.edges name = 0
  nodup : (p.done ++ p.ready).Nodup
  sublist : p.edges.Sublist (Order.edges items)
  gone : ∀ e ∈ Order.edges items, e ∉ p.edges → e.source ∈ p.done
  legal : Legal items p.done

structure Settled (items : List Item) (p : Progress) : Prop extends Sound items p where
  left : ∀ e ∈ p.edges, e.source ∉ p.done

@[simp]
theorem count_release (source : String) (p : Progress) (target name : String) :
    (p.release source target).count name =
      if name = target then p.count target - 1 else p.count name := by
  simp only [release, count, Dict.get?_insert]
  split <;> rfl

@[simp]
theorem done_release (source : String) (p : Progress) (target : String) :
    (p.release source target).done = p.done := rfl

@[simp]
theorem edges_release (source : String) (p : Progress) (target : String) :
    (p.release source target).edges = p.edges.erase ⟨source, target⟩ := rfl

theorem ready_release (source : String) (p : Progress) (target : String) :
    (p.release source target).ready =
      if p.count target - 1 = 0 then p.ready ++ [target] else p.ready := rfl

namespace Sound

variable {items : List Item} {p : Progress}

/-- An edge that is left keeps the count of its target above zero. -/
theorem count_pos (h : Sound items p) {e : Edge} (he : e ∈ p.edges) : 0 < p.count e.target := by
  rw [h.count]
  exact inDegree_pos he

/-- Taking an edge away puts its target into the queue when it was the last one. -/
theorem queued_release (h : Sound items p) {source target : String}
    (he : ⟨source, target⟩ ∈ p.edges) (name : String) :
    name ∈ (p.release source target).done ++ (p.release source target).ready ↔
      name ∈ items.map Item.name ∧ inDegree (p.edges.erase ⟨source, target⟩) name = 0 := by
  have hpos : 0 < inDegree p.edges target := inDegree_pos he
  have hmem : target ∈ items.map Item.name := target_mem (mem_edges.mp (h.sublist.subset he)).2
  have hold := h.queued name
  rw [inDegree_erase he, done_release, ready_release, h.count]
  by_cases hn : name = target
  · subst hn
    have hout : name ∉ p.done ++ p.ready := fun hin => by
      have := (hold.mp hin).2
      omega
    rw [List.mem_append, not_or] at hout
    by_cases hz : inDegree p.edges name - 1 = 0
    · simpa [hz] using hmem
    · simp [hz, hout]
  · rw [if_neg hn, Nat.sub_zero, ← hold]
    split
    · simp [hn]
    · rfl

theorem nodup_release (h : Sound items p) {source target : String}
    (he : ⟨source, target⟩ ∈ p.edges) :
    ((p.release source target).done ++ (p.release source target).ready).Nodup := by
  have hpos : 0 < inDegree p.edges target := inDegree_pos he
  have hout : target ∉ p.done ++ p.ready := fun hin => by
    have := ((h.queued target).mp hin).2
    omega
  rw [done_release, ready_release]
  split
  · rw [← List.append_assoc]
    exact h.nodup.append (List.nodup_singleton target) (by simpa using hout)
  · exact h.nodup

theorem release (hw : WellFormed items) (h : Sound items p) {source target : String}
    (he : ⟨source, target⟩ ∈ p.edges) (hs : source ∈ p.done) :
    Sound items (p.release source target) where
  count name := by
    rw [count_release, edges_release, inDegree_erase he, h.count, h.count]
    by_cases hn : name = target
    · simp [hn]
    · simp [hn]
  queued := h.queued_release he
  nodup := h.nodup_release he
  sublist := List.erase_sublist.trans h.sublist
  gone e hmem hout := by
    rw [edges_release, (hw.edges_nodup.sublist h.sublist).mem_erase_iff, not_and_or, not_not] at hout
    rcases hout with rfl | hout
    · exact hs
    · exact h.gone e hmem hout
  legal := h.legal

/-- Taking away one after another the edges from `source` into `ts`. -/
theorem releaseAll (hw : WellFormed items) (h : Sound items p) {source : String}
    (hs : source ∈ p.done) {ts : List String} (hnd : ts.Nodup)
    (hts : ∀ t ∈ ts, ⟨source, t⟩ ∈ p.edges) :
    Sound items (ts.foldl (Progress.release source) p) ∧
      (ts.foldl (Progress.release source) p).done = p.done ∧
      ∀ e, e ∈ (ts.foldl (Progress.release source) p).edges ↔
        e ∈ p.edges ∧ ¬ (e.source = source ∧ e.target ∈ ts) := by
  induction ts generalizing p with
  | nil => exact ⟨h, rfl, by simp⟩
  | cons t rest ih =>
      have hnd' := List.nodup_cons.mp hnd
      have he : ⟨source, t⟩ ∈ p.edges := hts t List.mem_cons_self
      have hmem : ∀ e, e ∈ (p.release source t).edges ↔ e ≠ ⟨source, t⟩ ∧ e ∈ p.edges :=
        fun e => (hw.edges_nodup.sublist h.sublist).mem_erase_iff
      have hrest : ∀ t' ∈ rest, ⟨source, t'⟩ ∈ (p.release source t).edges := by
        intro t' ht'
        refine (hmem _).mpr ⟨fun heq => ?_, hts t' (List.mem_cons_of_mem t ht')⟩
        rw [Edge.mk.injEq] at heq
        exact hnd'.1 (heq.2 ▸ ht')
      obtain ⟨hsound, hdone, hedges⟩ := ih (h.release hw he hs) hs hnd'.2 hrest
      refine ⟨hsound, hdone, fun e => ?_⟩
      rw [List.foldl_cons, hedges, hmem, List.mem_cons]
      obtain ⟨a, b⟩ := e
      simp only [ne_eq, Edge.mk.injEq]
      tauto

/-- An item leaves the queue only when all that blocks it is retired. -/
theorem pop (hw : WellFormed items) (h : Sound items p) {name : String} {rest : List String}
    (hready : p.ready = name :: rest) : Sound items (p.pop name rest) := by
  have heq : (p.done ++ [name]) ++ rest = p.done ++ p.ready := by
    rw [hready, List.append_assoc, List.singleton_append]
  have hzero : inDegree p.edges name = 0 :=
    ((h.queued name).mp (by simp [hready])).2
  refine ⟨h.count, fun n => ?_, ?_, h.sublist, fun e he hout => ?_, h.legal.snoc fun b hb => ?_⟩
  · exact heq ▸ h.queued n
  · exact heq ▸ h.nodup
  · exact List.mem_append_left _ (h.gone e he hout)
  · refine h.gone ⟨b, name⟩ (hw.mem_edges_iff.mpr hb) fun hin => ?_
    exact inDegree_eq_zero.mp hzero _ hin rfl

end Sound

namespace Settled

variable {items : List Item} {p : Progress}

/-- All edges that leave the head of the queue are still there, so each can be taken away. -/
theorem edge_mem (hw : WellFormed items) (h : Settled items p) {name : String}
    {rest : List String} (hready : p.ready = name :: rest) {t : String}
    (ht : t ∈ targets items name) : ⟨name, t⟩ ∈ p.edges := by
  by_contra hout
  have hdone : name ∈ p.done := h.gone ⟨name, t⟩ (hw.mem_edges_iff.mpr (mem_targets.mp ht)) hout
  exact List.disjoint_of_nodup_append h.nodup hdone (by rw [hready]; exact List.mem_cons_self)

theorem releaseAll (hw : WellFormed items) (h : Settled items p) {name : String}
    {rest : List String} (hready : p.ready = name :: rest) {ts : List String} (hnd : ts.Nodup)
    (hts : ∀ t ∈ ts, t ∈ targets items name) :
    Sound items (ts.foldl (Progress.release name) (p.pop name rest)) ∧
      (ts.foldl (Progress.release name) (p.pop name rest)).done = p.done ++ [name] ∧
      ∀ e, e ∈ (ts.foldl (Progress.release name) (p.pop name rest)).edges ↔
        e ∈ p.edges ∧ ¬ (e.source = name ∧ e.target ∈ ts) :=
  (h.toSound.pop hw hready).releaseAll hw (List.mem_append_right _ List.mem_cons_self) hnd
    fun t ht => h.edge_mem hw hready (hts t ht)

theorem retire (hw : WellFormed items) (h : Settled items p) {q : Progress}
    (hq : p.retire? items = some q) :
    Settled items q ∧ q.done.length = p.done.length + 1 := by
  cases hready : p.ready with
  | nil => simp [retire?, hready] at hq
  | cons name rest =>
      simp only [retire?, hready, Option.some.injEq] at hq
      obtain ⟨hsound, hdone, hedges⟩ :=
        h.releaseAll hw hready (hw.targets_nodup name) fun _ ht => ht
      rw [hq] at hsound hdone hedges
      refine ⟨⟨hsound, fun e he hin => ?_⟩, by rw [hdone, List.length_append, List.length_singleton]⟩
      obtain ⟨hmem, hnot⟩ := (hedges e).mp he
      have hblocks := hw.mem_edges_iff.mp (h.sublist.subset hmem)
      rw [hdone, List.mem_append, List.mem_singleton] at hin
      rcases hin with hin | hin
      · exact h.left e hmem hin
      · exact hnot ⟨hin, mem_targets.mpr (hin ▸ hblocks)⟩

end Settled
end Progress

/-- One round of the loop. -/
def Retires (items : List Item) (p q : Progress) : Prop :=
  p.retire? items = some q

open Progress

theorem count_start (items : List Item) (name : String) :
    (start items).count name = inDegree (edges items) name := by
  have hget : (start items).incoming.get? name =
      if name ∈ items.map Item.name then some (inDegree (edges items) name) else none :=
    Dict.get?_insertAll_map {} (inDegree (edges items)) Item.name items name
  rw [count, hget]
  by_cases hname : name ∈ items.map Item.name
  · rw [if_pos hname, Option.getD_some]
  · rw [if_neg hname, Option.getD_none, eq_comm, inDegree_eq_zero]
    rintro e he rfl
    exact hname (target_mem (mem_edges.mp he).2)

theorem start_settled {items : List Item} (hw : WellFormed items) :
    Settled items (start items) where
  count := count_start items
  queued name := by simp [start]
  nodup := hw.nodup.filter _
  sublist := List.Sublist.refl _
  gone _ he hout := absurd he hout
  legal := Legal.nil items
  left _ _ := List.not_mem_nil

/-- What holds in every round. -/
theorem settled_of_run {items : List Item} (hw : WellFormed items) {p : Progress}
    (h : ReflTransGen (Retires items) (start items) p) : Settled items p := by
  induction h with
  | refl => exact start_settled hw
  | tail _ hstep ih => exact (ih.retire hw hstep).1

theorem drain_run (items : List Item) (fuel : Nat) (p : Progress) :
    ReflTransGen (Retires items) p (drain items fuel p) := by
  induction fuel generalizing p with
  | zero => exact ReflTransGen.refl
  | succ fuel ih =>
      rw [drain]
      cases hq : p.retire? items with
      | none => exact ReflTransGen.refl
      | some q => exact ReflTransGen.head hq (ih q)

/-- The fuel lasts until the queue is empty: retired items are distinct. -/
theorem ready_drain {items : List Item} (hw : WellFormed items) {fuel : Nat} {p : Progress}
    (h : Settled items p) (hfuel : items.length ≤ fuel + p.done.length) :
    (drain items fuel p).ready = [] := by
  induction fuel generalizing p with
  | zero =>
      have hsub : p.done ++ p.ready ⊆ items.map Item.name := fun n hn => ((h.queued n).mp hn).1
      have hle := (h.nodup.subperm hsub).length_le
      rw [List.length_append, List.length_map] at hle
      exact List.length_eq_zero_iff.mp (show p.ready.length = 0 by omega)
  | succ fuel ih =>
      rw [drain]
      cases hready : p.ready with
      | nil => simp [retire?, hready]
      | cons name rest =>
          obtain ⟨q, hq⟩ : ∃ q, p.retire? items = some q := by simp [retire?, hready]
          obtain ⟨hsettled, hlen⟩ := h.retire hw hq
          rw [hq]
          exact ih hsettled (by omega)

theorem drained_settled {items : List Item} (hw : WellFormed items) :
    Settled items (drained items) :=
  settled_of_run hw (drain_run items items.length (start items))

theorem ready_drained {items : List Item} (hw : WellFormed items) :
    (drained items).ready = [] :=
  ready_drain hw (start_settled hw) (by simp)

theorem mem_done_drained {items : List Item} (hw : WellFormed items) (name : String) :
    name ∈ (drained items).done ↔
      name ∈ items.map Item.name ∧ inDegree (drained items).edges name = 0 := by
  have h := (drained_settled hw).queued name
  rwa [ready_drained hw, List.append_nil] at h

/-! ## The result -/

theorem sort_eq_ok_iff {items : List Item} {order : List String} :
    sort items = .ok order ↔
      WellFormed items ∧ (drained items).edges = [] ∧ order = (drained items).done := by
  rw [wellFormed_iff, sort]
  cases hd : duplicate? [] items with
  | some name => simp
  | none =>
      cases hu : unknown? items with
      | some pair => simp
      | none =>
          cases he : (drained items).edges with
          | nil => simp [eq_comm]
          | cons e rest => simp

/-- Without edges left, all items are retired. -/
theorem done_perm {items : List Item} (hw : WellFormed items) (he : (drained items).edges = []) :
    (drained items).done.Perm (items.map Item.name) := by
  have hnd : (drained items).done.Nodup :=
    (drained_settled hw).nodup.sublist (List.sublist_append_left _ _)
  rw [List.perm_ext_iff_of_nodup hnd hw.nodup]
  intro name
  rw [mem_done_drained hw, he]
  exact ⟨And.left, fun h => ⟨h, rfl⟩⟩

theorem idxOf_done_lt {items : List Item} (hw : WellFormed items)
    (he : (drained items).edges = []) {a b : String} (hab : Blocks items a b) :
    (drained items).done.idxOf a < (drained items).done.idxOf b := by
  have hperm := done_perm hw he
  exact (drained_settled hw).legal.idxOf_lt (hperm.nodup_iff.mpr hw.nodup)
    (hperm.mem_iff.mpr (target_mem hab)) hab

/-- The items that never become ready. -/
def stuck (items : List Item) : List String :=
  (items.map Item.name).filter fun name => name ∉ (drained items).done

theorem mem_stuck {items : List Item} {name : String} :
    name ∈ stuck items ↔ name ∈ items.map Item.name ∧ name ∉ (drained items).done := by
  rw [stuck, List.mem_filter, decide_eq_true_eq]

theorem source_mem_stuck {items : List Item} (hw : WellFormed items) {e : Edge}
    (he : e ∈ (drained items).edges) : e.source ∈ stuck items := by
  have hset := drained_settled hw
  exact mem_stuck.mpr ⟨(mem_edges.mp (hset.sublist.subset he)).1, hset.left e he⟩

/-- A stuck item waits for another one. -/
theorem exists_edge_of_mem_stuck {items : List Item} (hw : WellFormed items) {name : String}
    (h : name ∈ stuck items) : ∃ e ∈ (drained items).edges, e.target = name := by
  obtain ⟨hmem, hdone⟩ := mem_stuck.mp h
  rw [mem_done_drained hw, not_and] at hdone
  by_contra hnone
  exact hdone hmem (inDegree_eq_zero.mpr fun e he ht => hnone ⟨e, he, ht⟩)

theorem edges_drained_eq_nil_iff {items : List Item} (hw : WellFormed items) :
    (drained items).edges = [] ↔ Acyclic (Blocks items) := by
  constructor
  · intro he
    exact Acyclic.of_rank (drained items).done.idxOf fun _ _ hab => idxOf_done_lt hw he hab
  · intro hac
    by_contra hne
    obtain ⟨e, he⟩ := List.exists_mem_of_ne_nil _ hne
    -- Without a cycle some stuck item is blocked by no stuck one, yet it waits for one.
    obtain ⟨x, hx, hmin⟩ := hac.exists_not_pred (List.ne_nil_of_mem (source_mem_stuck hw he))
    obtain ⟨e', he', rfl⟩ := exists_edge_of_mem_stuck hw hx
    have hblocks := (mem_edges.mp ((drained_settled hw).sublist.subset he')).2
    exact hmin e'.source (source_mem_stuck hw he') hblocks

theorem sort_of_acyclic {items : List Item} (hw : WellFormed items)
    (hac : Acyclic (Blocks items)) :
    ∃ order, sort items = .ok order ∧ order.Perm (items.map Item.name) ∧
      ∀ a b, Blocks items a b → order.idxOf a < order.idxOf b := by
  have he := (edges_drained_eq_nil_iff hw).mpr hac
  exact ⟨_, sort_eq_ok_iff.mpr ⟨hw, he, rfl⟩, done_perm hw he, fun _ _ => idxOf_done_lt hw he⟩

/-- Sorting succeeds on exactly the well-formed graphs without cycles, lists every item once
and behind all that blocks it, and lowers no count below zero. -/
theorem sort_topological (items : List Item) :
    ((∃ order, sort items = .ok order) ↔
      (items.map Item.name).Nodup ∧
      (∀ item ∈ items, ∀ b ∈ item.blockedBy, b ∈ items.map Item.name) ∧
      Acyclic (Blocks items)) ∧
    (∀ order, sort items = .ok order →
      order.Perm (items.map Item.name) ∧
      ∀ item ∈ items, ∀ b ∈ item.blockedBy, order.idxOf b < order.idxOf item.name) ∧
    (WellFormed items → ∀ p, ReflTransGen (Retires items) (start items) p →
      ∀ name rest, p.ready = name :: rest →
      ∀ before target after, targets items name = before ++ target :: after →
        0 < (before.foldl (Progress.release name) (p.pop name rest)).count target) := by
  refine ⟨⟨?_, ?_⟩, ?_, ?_⟩
  · rintro ⟨order, h⟩
    obtain ⟨hw, he, -⟩ := sort_eq_ok_iff.mp h
    exact ⟨hw.nodup, hw.known, (edges_drained_eq_nil_iff hw).mp he⟩
  · rintro ⟨hnd, hknown, hac⟩
    obtain ⟨order, h, -⟩ := sort_of_acyclic ⟨hnd, hknown⟩ hac
    exact ⟨order, h⟩
  · intro order h
    obtain ⟨hw, he, rfl⟩ := sort_eq_ok_iff.mp h
    exact ⟨done_perm hw he, fun item hmem b hb => idxOf_done_lt hw he ⟨item, hmem, rfl, hb⟩⟩
  · intro hw p hp name rest hready before target after heq
    have hset := settled_of_run hw hp
    have hnd : (before ++ target :: after).Nodup := heq ▸ hw.targets_nodup name
    obtain ⟨hsound, -, hedges⟩ := hset.releaseAll hw hready (hnd.sublist (List.sublist_append_left _ _))
      fun t ht => by rw [heq]; exact List.mem_append_left _ ht
    have hin : target ∈ targets items name := by rw [heq]; simp
    have hout : target ∉ before := fun hmem =>
      List.disjoint_of_nodup_append hnd hmem List.mem_cons_self
    exact hsound.count_pos ((hedges ⟨name, target⟩).mpr
      ⟨hset.edge_mem hw hready hin, fun h => hout h.2⟩)

end Order
end Schematic
