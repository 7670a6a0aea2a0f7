import Schematic.Package.Set
import Mathlib.Data.List.Forall2
import Mathlib.Logic.Relation

/-!
# What a step of building ensures

A step keeps the package set also when it fails, so what it ensures has three parts: how
the package set moves in either case, what holds of the result when it ends well, and
what holds of the error when it fails.  There is one rule for each way in which steps
are put together, and no proof about a step has to look into the monad.
-/

namespace Schematic
namespace BuildM

variable {α β : Type}

/-- The outcome of a step that starts from `s`, and the package set it leaves. -/
def exec (x : BuildM α) (s : PackageSet) : Except BuildError α × PackageSet :=
  x.run.run s

@[simp]
theorem exec_pure (a : α) (s : PackageSet) : exec (pure a) s = (.ok a, s) := rfl

@[simp]
theorem exec_get (s : PackageSet) : exec get s = (.ok s, s) := rfl

@[simp]
theorem exec_modify (f : PackageSet → PackageSet) (s : PackageSet) :
    exec (modify f) s = (.ok (), f s) := rfl

theorem exec_bind (x : BuildM α) (f : α → BuildM β) (s : PackageSet) :
    exec (x >>= f) s =
      match exec x s with
      | (.ok a, s') => exec (f a) s'
      | (.error e, s') => (.error e, s') := by
  show (match exec x s with
    | (r, s') => (ExceptT.bindCont (fun a => f a) r).run s') = _
  rcases exec x s with ⟨e | a, s'⟩ <;> rfl

theorem exec_bind_eq_ok {x : BuildM α} {f : α → BuildM β} {s s' : PackageSet} {b : β} :
    exec (x >>= f) s = (.ok b, s') ↔
      ∃ a s₁, exec x s = (.ok a, s₁) ∧ exec (f a) s₁ = (.ok b, s') := by
  rw [exec_bind]
  constructor
  · intro h
    rcases hx : exec x s with ⟨e | a, s₁⟩
    · rw [hx] at h
      cases h
    · rw [hx] at h
      exact ⟨a, s₁, rfl, h⟩
  · rintro ⟨a, s₁, hx, hf⟩
    rw [hx]
    exact hf

theorem exec_attempt (x : BuildM α) (s : PackageSet) :
    exec x.attempt s = (.ok (x.exec s).1, (x.exec s).2) := rfl

theorem exec_forM_cons (f : β → BuildM Unit) (b : β) (rest : List β) (s : PackageSet) :
    exec ((b :: rest).forM f) s =
      match exec (f b) s with
      | (.ok _, s') => exec (rest.forM f) s'
      | (.error e, s') => (.error e, s') := by
  show exec (f b >>= fun _ => rest.forM f) s = _
  rw [exec_bind]
  rcases exec (f b) s with ⟨e | _, s'⟩ <;> rfl

/-- Started from `s`, `x` moves the package set along `R`.  If it ends well, its result
has `Q`, and if it fails, its error has `E`. -/
structure Ensures (R : PackageSet → PackageSet → Prop) (x : BuildM α) (s : PackageSet)
    (Q : α → PackageSet → Prop) (E : BuildError → PackageSet → Prop) : Prop where
  moves : R s (x.exec s).2
  ok : ∀ a, (x.exec s).1 = .ok a → Q a (x.exec s).2
  error : ∀ e, (x.exec s).1 = .error e → E e (x.exec s).2

namespace Ensures

variable {R R' : PackageSet → PackageSet → Prop} {s : PackageSet}
variable {Q Q' : α → PackageSet → Prop} {E E' : BuildError → PackageSet → Prop}

theorem of_exec {x y : BuildM α} (h : x.exec s = y.exec s) (hy : Ensures R y s Q E) :
    Ensures R x s Q E :=
  ⟨h ▸ hy.moves, h ▸ hy.ok, h ▸ hy.error⟩

theorem of_outcome {x : BuildM α} {outcome : Except BuildError α} {s' : PackageSet}
    (h : x.exec s = (outcome, s')) (hR : R s s') (hok : ∀ a, outcome = .ok a → Q a s')
    (herror : ∀ e, outcome = .error e → E e s') : Ensures R x s Q E := by
  refine ⟨?_, ?_, ?_⟩ <;> rw [h]
  · exact hR
  · exact hok
  · exact herror

theorem imp {x : BuildM α} (h : Ensures R x s Q E) (hR : ∀ s', R s s' → R' s s')
    (hQ : ∀ a s', R s s' → Q a s' → Q' a s') (hE : ∀ e s', R s s' → E e s' → E' e s') :
    Ensures R' x s Q' E' :=
  ⟨hR _ h.moves, fun a ha => hQ a _ h.moves (h.ok a ha), fun e he => hE e _ h.moves (h.error e he)⟩

/-- What is known of the errors of a step may be shown apart from the rest. -/
theorem with_errors {x : BuildM α} (h : Ensures R x s Q E)
    (h' : ∀ e, (x.exec s).1 = .error e → E' e (x.exec s).2) : Ensures R x s Q E' :=
  ⟨h.moves, h.ok, h'⟩

/-- A step that is known to end well has no errors. -/
theorem of_ok {x : BuildM α} (h : Ensures R x s Q E) (hok : ∃ a s', x.exec s = (.ok a, s')) :
    Ensures R x s Q E' := by
  obtain ⟨a, s', hexec⟩ := hok
  refine h.with_errors fun e he => ?_
  rw [hexec] at he
  cases he

/-- A step that has no errors ends well. -/
theorem exists_ok {x : BuildM α} (h : Ensures R x s Q fun _ _ => False) :
    ∃ a s', x.exec s = (.ok a, s') ∧ R s s' ∧ Q a s' := by
  obtain ⟨hmoves, hok, herror⟩ := h
  rcases hexec : x.exec s with ⟨e | a, s'⟩
  · exact (herror e (by rw [hexec])).elim
  · rw [hexec] at hmoves hok
    exact ⟨a, s', rfl, hmoves, hok a rfl⟩

protected theorem pure [Std.Refl R] {a : α} (h : Q a s) : Ensures R (pure a) s Q E where
  moves := refl s
  ok _ hb := by
    cases hb
    exact h
  error _ he := by cases he

protected theorem throw [Std.Refl R] {e : BuildError} (h : E e s) :
    Ensures R (throw e) s Q E where
  moves := refl s
  ok _ hb := by cases hb
  error _ he := by
    cases he
    exact h

protected theorem modify {f : PackageSet → PackageSet} {Q : Unit → PackageSet → Prop}
    (hR : R s (f s)) (hQ : Q () (f s)) : Ensures R (modify f) s Q E where
  moves := hR
  ok _ _ := hQ
  error _ he := by cases he

protected theorem lift [Std.Refl R] {x : Except BuildError α} (hok : ∀ a, x = .ok a → Q a s)
    (herror : ∀ e, x = .error e → E e s) : Ensures R (BuildM.lift x) s Q E := by
  cases x with
  | ok a => exact .pure (hok a rfl)
  | error e => exact .throw (herror e rfl)

protected theorem attempt {x : BuildM α} (h : Ensures R x s Q E) :
    Ensures R x.attempt s
      (fun outcome s' => (∀ a, outcome = .ok a → Q a s') ∧ ∀ e, outcome = .error e → E e s') E' where
  moves := by
    rw [exec_attempt]
    exact h.moves
  ok outcome ho := by
    rw [exec_attempt, Except.ok.injEq] at ho
    rw [exec_attempt, ← ho]
    exact ⟨h.ok, h.error⟩
  error e he := by
    rw [exec_attempt] at he
    cases he

protected theorem get {f : PackageSet → BuildM α} (h : Ensures R (f s) s Q E) :
    Ensures R (get >>= f) s Q E :=
  of_exec (by rw [exec_bind, exec_get]) h

protected theorem bind [IsTrans PackageSet R] {x : BuildM β} {f : β → BuildM α}
    {P : β → PackageSet → Prop} (hx : Ensures R x s P E)
    (hf : ∀ b s', R s s' → P b s' → Ensures R (f b) s' Q E) : Ensures R (x >>= f) s Q E := by
  have hmoves := hx.moves
  have hok := hx.ok
  have herror := hx.error
  rcases h : exec x s with ⟨e | b, s'⟩
  · have heq : exec (x >>= f) s = (.error e, s') := by rw [exec_bind, h]
    rw [h] at hmoves herror
    refine ⟨?_, ?_, ?_⟩ <;> rw [heq]
    · exact hmoves
    · intro a ha
      cases ha
    · intro e' he
      cases he
      exact herror e rfl
  · have heq : exec (x >>= f) s = exec (f b) s' := by rw [exec_bind, h]
    rw [h] at hmoves hok
    have hfb := hf b s' hmoves (hok b rfl)
    refine ⟨?_, ?_, ?_⟩ <;> rw [heq]
    · exact IsTrans.trans _ _ _ hmoves hfb.moves
    · exact hfb.ok
    · exact hfb.error

/-- For each member of a list in turn.  What one member gives must last. -/
protected theorem forM [Std.Refl R] [IsTrans PackageSet R] {l : List β} {f : β → BuildM Unit}
    {P : β → PackageSet → Prop} (hlast : ∀ b s s', R s s' → P b s → P b s')
    (h : ∀ b ∈ l, ∀ s', R s s' → Ensures R (f b) s' (fun _ => P b) E) :
    Ensures R (l.forM f) s (fun _ s' => ∀ b ∈ l, P b s') E := by
  induction l generalizing s with
  | nil => exact .pure (by simp)
  | cons b rest ih =>
      show Ensures R (f b >>= fun _ => rest.forM f) s _ E
      refine .bind (h b List.mem_cons_self s (refl s)) fun _ s₁ h₁ hb => ?_
      have hrest := ih (s := s₁) fun b' hb' s' hs' =>
        h b' (List.mem_cons_of_mem b hb') s' (IsTrans.trans _ _ _ h₁ hs')
      refine hrest.imp (fun _ hs => hs) (fun _ s₂ h₂ hall b' hb' => ?_) fun _ _ _ he => he
      rcases List.mem_cons.mp hb' with rfl | hb'
      · exact hlast _ _ _ h₂ hb
      · exact hall b' hb'

protected theorem mapM [Std.Refl R] [IsTrans PackageSet R] {l : List β} {f : β → BuildM α}
    {P : β → PackageSet → Prop} (hlast : ∀ b s s', R s s' → P b s → P b s')
    (h : ∀ b ∈ l, ∀ s', R s s' → Ensures R (f b) s' (fun _ => P b) E) :
    Ensures R (l.mapM f) s (fun _ s' => ∀ b ∈ l, P b s') E := by
  induction l generalizing s with
  | nil => exact .pure (by simp)
  | cons b rest ih =>
      rw [List.mapM_cons]
      refine .bind (h b List.mem_cons_self s (refl s)) fun a s₁ h₁ hb => ?_
      have hrest := ih (s := s₁) fun b' hb' s' hs' =>
        h b' (List.mem_cons_of_mem b hb') s' (IsTrans.trans _ _ _ h₁ hs')
      refine .bind hrest fun _ s₂ h₂ hall => .pure fun b' hb' => ?_
      rcases List.mem_cons.mp hb' with rfl | hb'
      · exact hlast _ _ _ h₂ hb
      · exact hall b' hb'

/-- The results one by one.  What is known of each must last. -/
protected theorem mapM_results [Std.Refl R] [IsTrans PackageSet R] {l : List β} {f : β → BuildM α}
    {P : β → α → PackageSet → Prop} (hlast : ∀ b a s s', R s s' → P b a s → P b a s')
    (h : ∀ b ∈ l, ∀ s', R s s' → Ensures R (f b) s' (P b) E) :
    Ensures R (l.mapM f) s (fun as s' => List.Forall₂ (fun b a => P b a s') l as) E := by
  induction l generalizing s with
  | nil => exact .pure .nil
  | cons b rest ih =>
      rw [List.mapM_cons]
      refine .bind (h b List.mem_cons_self s (refl s)) fun a s₁ h₁ hb => ?_
      have hrest := ih (s := s₁) fun b' hb' s' hs' =>
        h b' (List.mem_cons_of_mem b hb') s' (IsTrans.trans _ _ _ h₁ hs')
      exact .bind hrest fun as s₂ h₂ hall => .pure (.cons (hlast _ _ _ _ h₂ hb) hall)

end Ensures
end BuildM
end Schematic
