import Schematic.Proofs.Order

/-!
# The edges that a cycle leaves behind

The items that are never retired are those on a cycle and those behind one.  A retired item stands
behind all that blocks it, so none of them can be retired.  The other way round, an item that is
left over waits for another one that is left over, and among finitely many that comes round.  So
the edges reported are those that leave an item on a cycle or behind one.
-/

namespace Schematic
namespace Order

open Relation

variable {items : List Item}

/-! ## Items on a cycle and behind one -/

/-- The item is on a cycle, or one leads to it. -/
def BehindCycle (items : List Item) (name : String) : Prop :=
  ∃ c, TransGen (Blocks items) c c ∧ ReflTransGen (Blocks items) c name

/-- What blocks a retired item was retired before it. -/
theorem idxOf_done_lt_of_path (hw : WellFormed items) {a b : String}
    (hab : TransGen (Blocks items) a b) (hb : b ∈ (drained items).done) :
    a ∈ (drained items).done ∧ (drained items).done.idxOf a < (drained items).done.idxOf b := by
  have hset := drained_settled hw
  have hnd : (drained items).done.Nodup := hset.nodup.sublist (List.sublist_append_left _ _)
  have hstep : ∀ {x y : String}, Blocks items x y → y ∈ (drained items).done →
      x ∈ (drained items).done ∧ (drained items).done.idxOf x < (drained items).done.idxOf y := by
    intro x y hxy hy
    obtain ⟨before, after, hsplit⟩ := List.append_of_mem hy
    refine ⟨?_, hset.legal.idxOf_lt hnd hy hxy⟩
    rw [hsplit]
    exact List.mem_append_left _ (hset.legal before y after hsplit x hxy)
  induction hab with
  | single hab => exact hstep hab hb
  | tail _ hbc ih =>
      obtain ⟨hmid, hlt⟩ := hstep hbc hb
      obtain ⟨ha, hlt'⟩ := ih hmid
      exact ⟨ha, hlt'.trans hlt⟩

theorem not_mem_done_of_behindCycle (hw : WellFormed items) {name : String}
    (h : BehindCycle items name) : name ∉ (drained items).done := by
  obtain ⟨c, hcycle, hreach⟩ := h
  have hc : c ∉ (drained items).done := fun hdone =>
    Nat.lt_irrefl _ (idxOf_done_lt_of_path hw hcycle hdone).2
  rcases reflTransGen_iff_eq_or_transGen.mp hreach with rfl | hpath
  · exact hc
  · exact fun hdone => hc (idxOf_done_lt_of_path hw hpath hdone).1

/-- Going from blocker to blocker, a stuck item leads back to a cycle. -/
theorem behindCycle_of_mem_stuck (hw : WellFormed items) {name : String}
    (h : name ∈ stuck items) : BehindCycle items name := by
  classical
  by_contra hfree
  -- The stuck items from which `name` can be reached, and the edges between them.
  let upstream := (stuck items).filter fun x => ReflTransGen (Blocks items) x name
  let r (x y : String) : Prop := Blocks items x y ∧ ReflTransGen (Blocks items) y name
  have hmem : ∀ x, x ∈ upstream ↔ x ∈ stuck items ∧ ReflTransGen (Blocks items) x name := by
    intro x
    rw [List.mem_filter, decide_eq_true_eq]
  have hac : Acyclic r := by
    intro c hc
    obtain ⟨_, -, -, hreach⟩ := TransGen.tail'_iff.mp hc
    exact hfree ⟨c, TransGen.mono (fun _ _ hr => hr.1) _ _ hc, hreach⟩
  obtain ⟨x, hx, hmin⟩ := hac.exists_not_pred
    (List.ne_nil_of_mem ((hmem name).mpr ⟨h, ReflTransGen.refl⟩))
  obtain ⟨hstuck, hreach⟩ := (hmem x).mp hx
  obtain ⟨e, he, rfl⟩ := exists_edge_of_mem_stuck hw hstuck
  have hblocks := (mem_edges.mp ((drained_settled hw).sublist.subset he)).2
  exact hmin e.source ((hmem e.source).mpr ⟨source_mem_stuck hw he, hreach.head hblocks⟩)
    ⟨hblocks, hreach⟩

/-! ## The edges left -/

theorem mem_edges_drained (hw : WellFormed items) {e : Edge} :
    e ∈ (drained items).edges ↔ Blocks items e.source e.target ∧ BehindCycle items e.source := by
  have hset := drained_settled hw
  constructor
  · intro he
    exact ⟨(mem_edges.mp (hset.sublist.subset he)).2,
      behindCycle_of_mem_stuck hw (source_mem_stuck hw he)⟩
  · rintro ⟨hblocks, hcycle⟩
    by_contra hout
    exact not_mem_done_of_behindCycle hw hcycle (hset.gone e (hw.mem_edges_iff.mpr hblocks) hout)

/-- Where an item stands among the items. -/
def place (items : List Item) (name : String) : Nat :=
  (items.map Item.name).idxOf name

/-- An edge comes before another by the place of its source, and then by that of its target. -/
def Edge.Precedes (items : List Item) (e e' : Edge) : Prop :=
  place items e.source < place items e'.source ∨
    place items e.source = place items e'.source ∧ place items e.target < place items e'.target

theorem pairwise_place (h : (items.map Item.name).Nodup) :
    (items.map Item.name).Pairwise fun a b => place items a < place items b := by
  rw [List.pairwise_iff_getElem]
  intro i j hi hj hij
  rw [place, place, h.idxOf_getElem i hi, h.idxOf_getElem j hj]
  exact hij

theorem pairwise_edges (h : (items.map Item.name).Nodup) :
    (edges items).Pairwise (Edge.Precedes items) := by
  rw [edges, List.pairwise_flatMap]
  constructor
  · intro item _
    rw [List.pairwise_map]
    have htargets : (targets items item.name).Pairwise fun a b => place items a < place items b :=
      (pairwise_place h).sublist (List.filter_sublist.map Item.name)
    exact htargets.imp fun hlt => Or.inr ⟨rfl, hlt⟩
  · refine (List.pairwise_map.mp (pairwise_place h)).imp fun hlt e he e' he' => ?_
    obtain ⟨_, -, rfl⟩ := List.mem_map.mp he
    obtain ⟨_, -, rfl⟩ := List.mem_map.mp he'
    exact Or.inl hlt

/-! ## The report -/

theorem sort_eq_cycle (hw : WellFormed items) (h : (drained items).edges ≠ []) :
    sort items = .error (.cycle (drained items).edges) := by
  obtain ⟨hduplicate, hunknown⟩ := wellFormed_iff.mp hw
  rw [sort, hduplicate, hunknown]
  cases hedges : (drained items).edges with
  | nil => exact absurd hedges h
  | cons e rest => rfl

/-- Where items are in a circle, sorting reports the edges that leave an item on a circle or behind
one, each once and in the order of their ends.  So it reports every edge of every circle, and no
edge that leaves an item with no circle before it. -/
theorem sort_reports_cycles {items : List Item} (hnodup : (items.map Item.name).Nodup)
    (hknown : ∀ item ∈ items, ∀ b ∈ item.blockedBy, b ∈ items.map Item.name)
    (hcycle : ∃ a, TransGen (Blocks items) a a) :
    ∃ edges, sort items = .error (.cycle edges) ∧
      edges.Nodup ∧ edges.Pairwise (Edge.Precedes items) ∧
      (∀ e, e ∈ edges ↔ Blocks items e.source e.target ∧
        ∃ c, TransGen (Blocks items) c c ∧ ReflTransGen (Blocks items) c e.source) ∧
      (∀ a b, Blocks items a b → ReflTransGen (Blocks items) b a → ⟨a, b⟩ ∈ edges) ∧
      (∀ a b, (∀ c, ReflTransGen (Blocks items) c a → ¬ TransGen (Blocks items) c c) →
        ⟨a, b⟩ ∉ edges) := by
  have hw : WellFormed items := ⟨hnodup, hknown⟩
  have hset := drained_settled hw
  have hmem : ∀ e, e ∈ (drained items).edges ↔ Blocks items e.source e.target ∧
      ∃ c, TransGen (Blocks items) c c ∧ ReflTransGen (Blocks items) c e.source :=
    fun _ => mem_edges_drained hw
  have hleft : (drained items).edges ≠ [] := by
    intro hnil
    obtain ⟨a, ha⟩ := hcycle
    exact (edges_drained_eq_nil_iff hw).mp hnil a ha
  refine ⟨_, sort_eq_cycle hw hleft, hw.edges_nodup.sublist hset.sublist,
    (pairwise_edges hnodup).sublist hset.sublist, hmem, ?_, ?_⟩
  · intro a b hab hba
    exact (hmem _).mpr ⟨hab, a, TransGen.head' hab hba, ReflTransGen.refl⟩
  · intro a b hfree he
    obtain ⟨-, c, hc, hreach⟩ := (hmem _).mp he
    exact hfree c hreach hc

/-- Two circles that share an item, something before them and something behind. -/
def tangled : List Item :=
  [⟨"last", ["b"]⟩, ⟨"a", ["b", "free"]⟩, ⟨"b", ["a", "c"]⟩, ⟨"c", ["b"]⟩, ⟨"free", []⟩,
    ⟨"end", ["last"]⟩]

theorem sort_reports_cycles_tangled :
    sort tangled = .error (.cycle [⟨"last", "end"⟩, ⟨"a", "b"⟩, ⟨"b", "last"⟩, ⟨"b", "a"⟩,
      ⟨"b", "c"⟩, ⟨"c", "b"⟩]) ∧
    ∃ edges, sort tangled = .error (.cycle edges) ∧
      edges.Nodup ∧ edges.Pairwise (Edge.Precedes tangled) ∧
      (∀ e, e ∈ edges ↔ Blocks tangled e.source e.target ∧
        ∃ c, TransGen (Blocks tangled) c c ∧ ReflTransGen (Blocks tangled) c e.source) ∧
      (∀ a b, Blocks tangled a b → ReflTransGen (Blocks tangled) b a → ⟨a, b⟩ ∈ edges) ∧
      (∀ a b, (∀ c, ReflTransGen (Blocks tangled) c a → ¬ TransGen (Blocks tangled) c c) →
        ⟨a, b⟩ ∉ edges) := by
  have hab : Blocks tangled "a" "b" := ⟨⟨"b", ["a", "c"]⟩, by decide, rfl, by decide⟩
  have hba : Blocks tangled "b" "a" := ⟨⟨"a", ["b", "free"]⟩, by decide, rfl, by decide⟩
  exact ⟨by decide +kernel, sort_reports_cycles (by decide) (by decide)
    ⟨"a", (TransGen.single hab).tail hba⟩⟩

end Order
end Schematic
