import Mathlib.Logic.Relation
import Mathlib.Order.WellFounded
import Mathlib.Data.Fintype.Card
import Mathlib.Data.Set.Finite.Basic

/-!
# Relations without cycles

Items that block each other, packages that need each other: both must be free of
cycles.  A rank that grows along the relation excludes them, a new source keeps them
out, and a finite set in which every member has a predecessor holds one.
-/

namespace Schematic

open Relation

variable {α : Type}

/-- Nothing leads back to itself. -/
def Acyclic (r : α → α → Prop) : Prop :=
  ∀ a, ¬ TransGen r a a

namespace Acyclic

theorem of_rank {r : α → α → Prop} (rank : α → Nat) (h : ∀ a b, r a b → rank a < rank b) :
    Acyclic r := by
  intro a ha
  have hlt : TransGen (· < ·) (rank a) (rank a) := ha.lift rank h
  rw [transGen_eq_self] at hlt
  exact Nat.lt_irrefl _ hlt

theorem mono {r r' : α → α → Prop} (hr : Acyclic r) (h : ∀ a b, r' a b → r a b) :
    Acyclic r' :=
  fun a ha => hr a (TransGen.mono h a a ha)

theorem swap {r : α → α → Prop} (hr : Acyclic r) : Acyclic fun a b => r b a :=
  fun a ha => hr a (transGen_swap.mp ha)

/-- A relation stays without cycles when new pairs start at `x` and none ends there. -/
theorem of_source {r r' : α → α → Prop} {x : α} (hr : Acyclic r)
    (hnew : ∀ a b, r' a b → r a b ∨ a = x) (hx : ∀ a, ¬ r' a x) : Acyclic r' := by
  have hold : ∀ a b, TransGen r' a b → a ≠ x → TransGen r a b := by
    intro a b hab ha
    induction hab with
    | single h => exact TransGen.single ((hnew _ _ h).resolve_right ha)
    | tail hac hcb ih =>
        -- The middle of a path has a pair that ends there, so it is not `x`.
        refine ih.tail ((hnew _ _ hcb).resolve_right fun hc => ?_)
        obtain ⟨b, -, hb⟩ := TransGen.tail'_iff.mp hac
        exact hx b (hc ▸ hb)
  intro a ha
  refine hr a (hold a a ha fun hax => ?_)
  obtain ⟨b, -, hb⟩ := TransGen.tail'_iff.mp ha
  exact hx b (hax ▸ hb)

/-- Going from predecessor to predecessor in a finite set comes round. -/
theorem exists_not_pred {r : α → α → Prop} (hr : Acyclic r) {l : List α} (hl : l ≠ []) :
    ∃ x ∈ l, ∀ y ∈ l, ¬ r y x := by
  let before (a b : { x // x ∈ l }) : Prop := TransGen r a.1 b.1
  have : IsTrans { x // x ∈ l } before := ⟨fun _ _ _ hab hbc => TransGen.trans hab hbc⟩
  have : Std.Irrefl before := ⟨fun a ha => hr a.1 ha⟩
  have : Finite { x // x ∈ l } := l.finite_toSet
  have hwf : WellFounded before := Finite.wellFounded_of_trans_of_irrefl before
  obtain ⟨x, hx⟩ := List.exists_mem_of_ne_nil l hl
  obtain ⟨m, -, hm⟩ := hwf.has_min Set.univ ⟨⟨x, hx⟩, trivial⟩
  exact ⟨m.1, m.2, fun y hy hr => hm ⟨y, hy⟩ trivial (TransGen.single hr)⟩

end Acyclic
end Schematic
