import Schematic.Proofs.Package.Lifecycle

/-!
# How deep building goes

Building goes down the dependencies of a package, at most as deep as there are packages.
Resolved packages do not need each other in a circle, so no chain of dependencies is any
longer, and a resolved package is built in the same way whatever bound is taken, as long as it
is not smaller than that.
-/

namespace Schematic

open Relation BuildM

/-! ## Steps that do the same -/

namespace BuildM

variable {α β : Type} {R : PackageSet → PackageSet → Prop} {s : PackageSet}

theorem exec_mapM_congr [Std.Refl R] [IsTrans PackageSet R] {l : List β} {f g : β → BuildM α}
    (hmoves : ∀ b ∈ l, ∀ s', R s s' → R s' ((f b).exec s').2)
    (h : ∀ b ∈ l, ∀ s', R s s' → (g b).exec s' = (f b).exec s') :
    (l.mapM g).exec s = (l.mapM f).exec s := by
  induction l generalizing s with
  | nil => rfl
  | cons b rest ih =>
      rw [List.mapM_cons, List.mapM_cons, exec_bind, exec_bind,
        h b List.mem_cons_self s (refl s)]
      have hb := hmoves b List.mem_cons_self s (refl s)
      rcases hexec : exec (f b) s with ⟨e | a, s₁⟩
      · rfl
      · rw [hexec] at hb
        have hrest : (rest.mapM g).exec s₁ = (rest.mapM f).exec s₁ :=
          ih (fun b' hb' s' hs' => hmoves b' (List.mem_cons_of_mem b hb') s'
              (IsTrans.trans _ _ _ hb hs'))
            fun b' hb' s' hs' => h b' (List.mem_cons_of_mem b hb') s' (IsTrans.trans _ _ _ hb hs')
        simp only [exec_bind, hrest]

/-- Running steps for what they leave only. -/
theorem exec_forM_ignore (l : List β) (f : β → BuildM α) (s : PackageSet) :
    exec (l.forM fun b => do let _ ← f b) s =
      match exec (l.mapM f) s with
      | (.ok _, s') => (.ok (), s')
      | (.error e, s') => (.error e, s') := by
  induction l generalizing s with
  | nil => rfl
  | cons b rest ih =>
      rw [exec_forM_cons, List.mapM_cons, exec_bind, exec_bind]
      rcases exec (f b) s with ⟨e | a, s₁⟩
      · rfl
      · simp only [exec_pure, ih, exec_bind]
        rcases exec (rest.mapM f) s₁ with ⟨e | as, s₂⟩ <;> rfl

end BuildM

/-! ## Chains of dependencies -/

namespace PackageSet

variable {s s' : PackageSet} {name : String} {depth : Nat}

/-- Every chain of dependencies of a package has fewer than `depth` of them. -/
def Shallow (s : PackageSet) (depth : Nat) (name : String) : Prop :=
  ∀ path, (name :: path).IsChain s.DependsOn → path.length < depth

theorem not_shallow_zero : ¬ s.Shallow 0 name :=
  fun h => Nat.not_lt_zero _ (h [] (List.isChain_singleton name))

theorem Shallow.dependency (h : s.Shallow (depth + 1) name) {d : String}
    (hd : s.DependsOn name d) : s.Shallow depth d := by
  intro path hpath
  have hlt := h (d :: path) (List.isChain_cons_cons.mpr ⟨hd, hpath⟩)
  rw [List.length_cons] at hlt
  omega

/-- A chain that starts at a resolved package goes through resolved ones only. -/
theorem Ordered.resolved_of_isChain (h : s.Ordered) (hname : s.Resolved name) {path : List String}
    (hpath : (name :: path).IsChain s.DependsOn) :
    (name :: path).IsChain (fun a b => s.Resolved a ∧ s.Resolved b ∧ s.DependsOn a b) ∧
      ∀ n ∈ name :: path, s.Resolved n := by
  induction path generalizing name with
  | nil =>
      refine ⟨List.isChain_singleton name, fun n hn => ?_⟩
      rw [List.mem_singleton.mp hn]
      exact hname
  | cons d rest ih =>
      obtain ⟨hd, hrest⟩ := List.isChain_cons_cons.mp hpath
      have hres := h.closed name d hname hd
      obtain ⟨hchain, hall⟩ := ih hres hrest
      refine ⟨List.isChain_cons_cons.mpr ⟨⟨hname, hres, hd⟩, hchain⟩, fun n hn => ?_⟩
      rcases List.mem_cons.mp hn with rfl | hn
      · exact hname
      · exact hall n hn

/-- No chain of resolved packages is longer than there are packages. -/
theorem Ordered.shallow (h : s.Ordered) (hname : s.Resolved name)
    (hdepth : s.packages.size ≤ depth) : s.Shallow depth name := by
  intro path hpath
  obtain ⟨hchain, hall⟩ := h.resolved_of_isChain hname hpath
  have hnodup : (name :: path).Nodup := by
    have htrans := (hchain.imp fun _ _ hab => TransGen.single hab).pairwise
    refine htrans.imp fun hab heq => ?_
    exact h.acyclic _ (heq ▸ hab)
  have hsub : name :: path ⊆ s.packages.keys := by
    intro n hn
    obtain ⟨p, hp, -⟩ := hall n hn
    exact Dict.mem_keys (Dict.contains_iff.mpr ⟨p, hp⟩)
  have hle := (hnodup.subperm hsub).length_le
  rw [Dict.keys, List.length_map, List.length_cons] at hle
  exact Nat.lt_of_lt_of_le hle hdepth

/-- What a resolved package needs is found out. -/
theorem Extends.shallow (hext : s.Extends s') (hs : s.Ordered) (hname : s.Resolved name)
    (h : s.Shallow depth name) : s'.Shallow depth name := by
  intro path hpath
  refine h path ?_
  clear h
  induction path generalizing name with
  | nil => exact List.isChain_singleton name
  | cons d rest ih =>
      obtain ⟨⟨q, hq, hd⟩, hrest⟩ := List.isChain_cons_cons.mp hpath
      obtain ⟨p, hp, -⟩ := id hname
      have hd : s.DependsOn name d :=
        ⟨p, hp, (hext.package_of_later hp hq).dependencies ▸ hd⟩
      exact List.isChain_cons_cons.mpr ⟨hd, ih (hs.closed name d hname hd) hrest⟩

end PackageSet

/-! ## Bounds -/

namespace Workspace

variable (w : Workspace)

theorem exec_buildFrom_congr {depth depth' : Nat} {name : String} {s : PackageSet}
    (hs : s.Lifecycle) (hname : s.Resolved name) (h : s.Shallow depth name)
    (h' : s.Shallow depth' name) :
    (w.buildFrom depth' name).exec s = (w.buildFrom depth name).exec s := by
  induction depth generalizing depth' name s with
  | zero => exact absurd h PackageSet.not_shallow_zero
  | succ depth ih =>
      cases depth' with
      | zero => exact absurd h' PackageSet.not_shallow_zero
      | succ depth' =>
          obtain ⟨p, hp, -⟩ := id hname
          have hdeps : (p.dependencies.mapM (w.buildFrom depth')).exec s =
              (p.dependencies.mapM (w.buildFrom depth)).exec s := by
            refine exec_mapM_congr (R := Evolves w []) (fun d _ _ _ => w.evolves_buildFrom _ d)
              fun d hd s' hs' => ?_
            have hneed : s.DependsOn name d := ⟨p, hp, hd⟩
            have hres := hs.closed name d hname hneed
            exact ih (hs'.steps.lifecycle hs) (hs'.extends.resolved hres)
              (hs'.extends.shallow hs.toOrdered hres (h.dependency hneed))
              (hs'.extends.shallow hs.toOrdered hres (h'.dependency hneed))
          rw [buildFrom, buildFrom, exec_bind, exec_bind, exec_get]
          cases hb : s.built.get? name with
          | some built => simp only [hb]
          | none =>
              simp only [hb, package, exec_bind, exec_get, hp, exec_pure, hdeps]

/-- The dependencies of a resolved package are built one by one, each within a bound of its own. -/
theorem exec_build_dependencies {name : String} {p : Package} {s : PackageSet} (hs : s.Lifecycle)
    (hname : s.Resolved name) (hp : s.packages.get? name = some p) :
    (p.dependencies.mapM w.build).exec s =
      (p.dependencies.mapM (w.buildFrom s.packages.size)).exec s := by
  refine exec_mapM_congr (R := Evolves w []) (fun d _ _ _ => w.evolves_buildFrom _ d)
    fun d hd s' hs' => ?_
  have hres := hs.closed name d hname ⟨p, hp, hd⟩
  have hlife := hs'.steps.lifecycle hs
  have hres' := hs'.extends.resolved hres
  rw [build, exec_bind, exec_get]
  exact w.exec_buildFrom_congr hlife hres'
    (hs'.extends.shallow hs.toOrdered hres (hs.toOrdered.shallow hres (Nat.le_refl _)))
    (hlife.toOrdered.shallow hres' (Nat.le_succ _))

end Workspace
end Schematic
