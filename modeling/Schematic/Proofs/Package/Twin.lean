import Schematic.Proofs.Package.Materialized

/-!
# Two runs side by side

Linking does not care whether a package whose files are all there is marked as
converted: at worst it converts the package once more and finds what it had.  So
two package sets that differ in that mark only give the same linked files or the same
errors.
-/

namespace Schematic

open Relation BuildM

/-! ## Steps that end alike -/

namespace BuildM

variable {α β : Type}

/-- Started from `a` and from `b`, two steps have the same outcome and leave package
sets related by `R`. -/
structure Alike (R : PackageSet → PackageSet → Prop) (x y : BuildM α) (a b : PackageSet) : Prop where
  outcome : (x.exec a).1 = (y.exec b).1
  related : R (x.exec a).2 (y.exec b).2

namespace Alike

variable {R R' : PackageSet → PackageSet → Prop} {a b : PackageSet}

theorem of_exec {x x' y y' : BuildM α} (hx : x.exec a = x'.exec a) (hy : y.exec b = y'.exec b)
    (h : Alike R x' y' a b) : Alike R x y a b :=
  ⟨by rw [hx, hy]; exact h.outcome, by rw [hx, hy]; exact h.related⟩

protected theorem pure (v : α) (h : R a b) : Alike R (pure v) (pure v) a b :=
  ⟨rfl, h⟩

protected theorem throw (e : BuildError) (h : R a b) :
    Alike R (throw e : BuildM α) (throw e) a b :=
  ⟨rfl, h⟩

protected theorem lift (x : Except BuildError α) (h : R a b) :
    Alike R (BuildM.lift x) (BuildM.lift x) a b := by
  cases x with
  | ok v => exact .pure v h
  | error e => exact .throw e h

theorem lift_bind {x : Except BuildError β} {f g : β → BuildM α} (h : R a b)
    (hfg : ∀ v, x = .ok v → Alike R (f v) (g v) a b) :
    Alike R (BuildM.lift x >>= f) (BuildM.lift x >>= g) a b := by
  cases x with
  | ok v => exact of_exec (by rw [exec_bind]; rfl) (by rw [exec_bind]; rfl) (hfg v rfl)
  | error e =>
      have hthrow : Alike R (throw e : BuildM α) (throw e) a b := .throw e h
      exact of_exec (by rw [exec_bind]; rfl) (by rw [exec_bind]; rfl) hthrow

protected theorem modify {f g : PackageSet → PackageSet} (h : R (f a) (g b)) :
    Alike R (modify f) (modify g) a b :=
  ⟨rfl, h⟩

protected theorem get {f g : PackageSet → BuildM α} (h : Alike R (f a) (g b) a b) :
    Alike R (get >>= f) (get >>= g) a b :=
  of_exec (by rw [exec_bind, exec_get]) (by rw [exec_bind, exec_get]) h

protected theorem bind {x y : BuildM β} {f g : β → BuildM α} (h : Alike R x y a b)
    (hfg : ∀ v a' b', R a' b' → Alike R (f v) (g v) a' b') : Alike R (x >>= f) (y >>= g) a b := by
  obtain ⟨houtcome, hrelated⟩ := h
  rcases hx : exec x a with ⟨e | v, a'⟩
  · rcases hy : exec y b with ⟨e' | v', b'⟩
    · rw [hx, hy] at houtcome hrelated
      cases houtcome
      constructor <;> rw [exec_bind, exec_bind, hx, hy]
      exact hrelated
    · rw [hx, hy] at houtcome
      cases houtcome
  · rcases hy : exec y b with ⟨e' | v', b'⟩
    · rw [hx, hy] at houtcome
      cases houtcome
    · rw [hx, hy] at houtcome hrelated
      cases houtcome
      have h' := hfg v a' b' hrelated
      constructor <;> rw [exec_bind, exec_bind, hx, hy]
      · exact h'.outcome
      · exact h'.related

protected theorem forM {l : List β} {f g : β → BuildM Unit} (h : R a b)
    (hfg : ∀ v ∈ l, ∀ a' b', R a' b' → Alike R (f v) (g v) a' b') :
    Alike R (l.forM f) (l.forM g) a b := by
  induction l generalizing a b with
  | nil => exact .pure () h
  | cons v rest ih =>
      show Alike R (f v >>= fun _ => rest.forM f) (g v >>= fun _ => rest.forM g) a b
      refine .bind (hfg v List.mem_cons_self a b h) fun _ a' b' h' => ?_
      exact ih h' fun v' hv' => hfg v' (List.mem_cons_of_mem v hv')

end Alike
end BuildM

/-! ## Twins -/

/-- `a` and `b` are the same but for the mark that `name` is converted, which `a` has. -/
structure Twin (name : String) (a b : PackageSet) : Prop where
  others : ∀ k, k ≠ name → b.packages.get? k = a.packages.get? k
  own : ∃ p, a.packages.get? name = some { p with materialized := true } ∧
    b.packages.get? name = some p ∧ PackageState.resolved.rank ≤ p.state.rank
  files : ∀ k, b.files.get? k = a.files.get? k
  symbols : b.symbols = a.symbols
  linked : b.linked = a.linked
  linking : b.linking = a.linking

namespace Twin

variable {name : String} {a b : PackageSet}

theorem exists_package (h : Twin name a b) (k : String) :
    (a.packages.get? k = none ∧ b.packages.get? k = none) ∨
    ∃ p q, a.packages.get? k = some p ∧ b.packages.get? k = some q ∧ q.state = p.state ∧
      q.exports = p.exports := by
  by_cases hk : k = name
  · obtain ⟨p, ha, hb, -⟩ := h.own
    rw [hk]
    exact Or.inr ⟨_, _, ha, hb, rfl, rfl⟩
  · rw [h.others k hk]
    cases a.packages.get? k with
    | none => exact Or.inl ⟨rfl, rfl⟩
    | some p => exact Or.inr ⟨p, p, rfl, rfl, rfl, rfl⟩

theorem state? (h : Twin name a b) (k : String) : b.state? k = a.state? k := by
  rw [PackageSet.state?, PackageSet.state?]
  rcases h.exists_package k with ⟨ha, hb⟩ | ⟨p, q, ha, hb, hstate, -⟩
  · rw [ha, hb]
  · rw [ha, hb, Option.map_some, Option.map_some, hstate]

theorem resolveType (h : Twin name a b) (w : Workspace) : w.resolveType b = w.resolveType a := by
  refine Workspace.resolveType_congr fun k => ?_
  rcases h.exists_package k with ⟨ha, hb⟩ | ⟨p, q, ha, hb, -, hexports⟩
  · rw [ha, hb]
  · rw [ha, hb, Option.map_some, Option.map_some, hexports]

theorem converted (h : Twin name a b) (w : Workspace) : w.converted b = w.converted a := by
  funext source
  rw [Workspace.converted, Workspace.converted, h.resolveType]

theorem addFiles (h : Twin name a b) (files : List FileDescriptor) :
    Twin name (a.addFiles files) (b.addFiles files) := by
  refine { h with files := fun k => ?_ }
  rw [Workspace.get?_addFiles, Workspace.get?_addFiles, h.files]

theorem insertFile (h : Twin name a b) (file : String) (f : FileDescriptor) :
    Twin name { a with files := a.files.insert file f }
      { b with files := b.files.insert file f } := by
  refine { h with files := fun k => ?_ }
  rw [Dict.get?_insert, Dict.get?_insert, h.files]

/-- A package other than `name` is loaded. -/
theorem insert (h : Twin name a b) {k : String} (hk : k ≠ name) (p : Package) :
    Twin name { a with packages := a.packages.insert k p }
      { b with packages := b.packages.insert k p } := by
  obtain ⟨q, ha, hb, hrank⟩ := h.own
  refine { h with others := fun j hj => ?_, own := ⟨q, ?_, ?_, hrank⟩ }
  · rw [Dict.get?_insert, Dict.get?_insert, h.others j hj]
  · rw [Dict.get?_insert, if_neg hk.symm, ha]
  · rw [Dict.get?_insert, if_neg hk.symm, hb]

/-- A package other than `name` is changed. -/
theorem update (h : Twin name a b) {k : String} (hk : k ≠ name) (f : Package → Package) :
    Twin name (a.update k f) (b.update k f) where
  others j hj := by
    rw [PackageSet.get?_update, PackageSet.get?_update, h.others j hj, h.others k hk]
  own := by
    obtain ⟨q, ha, hb, hrank⟩ := h.own
    refine ⟨q, ?_, ?_, hrank⟩ <;> rw [PackageSet.get?_update, if_neg hk.symm]
    · exact ha
    · exact hb
  files j := by rw [PackageSet.files_update, PackageSet.files_update, h.files]
  symbols := by rw [PackageSet.symbols_update, PackageSet.symbols_update, h.symbols]
  linked := by rw [PackageSet.linked_update, PackageSet.linked_update, h.linked]
  linking := by rw [PackageSet.linking_update, PackageSet.linking_update, h.linking]

end Twin

namespace Workspace

variable (w : Workspace) {name : String} {a b : PackageSet}

/-! ## Loading and converting -/

theorem exec_isResolved_bind (k : String) (f : Bool → BuildM Unit) (s : PackageSet) :
    (isResolved k >>= f).exec s =
      (f ((s.state? k).any fun state => PackageState.resolved.rank ≤ state.rank)).exec s := by
  rw [exec_bind]
  rfl

theorem alike_summarized {k : String} (hk : k ≠ name) (h : Twin name a b) :
    Alike (Twin name) (w.summarized k) (w.summarized k) a b := by
  refine .get ?_
  rw [h.others k hk]
  cases a.packages.get? k with
  | some p => exact .pure p h
  | none =>
      refine .bind (.lift _ h) fun p a₁ b₁ h₁ => ?_
      exact .bind (.modify (h₁.insert hk p)) fun _ _ _ h₂ => .pure p h₂

/-- A package that is resolved already is not loaded again, and `name` is. -/
theorem alike_loadFrom (depth : Nat) (chain : LoadChain) (k : String) (h : Twin name a b) :
    Alike (Twin name) (w.loadFrom depth chain k) (w.loadFrom depth chain k) a b := by
  induction depth generalizing chain k a b with
  | zero => exact .throw _ h
  | succ depth ih =>
      rw [loadFrom]
      refine .bind (.lift _ h) fun chain' a₁ b₁ h₁ => ?_
      refine .of_exec (exec_isResolved_bind k _ a₁) (exec_isResolved_bind k _ b₁) ?_
      rw [h₁.state? k]
      by_cases hres : ((a₁.state? k).any fun state => PackageState.resolved.rank ≤ state.rank) = true
      · rw [if_pos hres]
        exact .pure () h₁
      · rw [if_neg hres]
        have hk : k ≠ name := by
          rintro rfl
          obtain ⟨p, hp, -, hrank⟩ := h₁.own
          rw [PackageSet.state?, hp] at hres
          exact hres (by simpa using hrank)
        by_cases hlocal : w.repository.isLocal k = true
        · rw [if_pos hlocal]
          refine .bind (w.alike_summarized hk h₁) fun p a₂ b₂ h₂ => ?_
          refine .bind (.forM h₂ fun d _ _ _ h => ih chain' d h) fun _ a₃ b₃ h₃ => ?_
          exact .modify (h₃.update hk _)
        · rw [if_neg hlocal]
          exact .throw _ h₁

theorem alike_materializeSource (source : SourceFile) (h : Twin name a b) :
    Alike (Twin name) (w.materializeSource source) (w.materializeSource source) a b := by
  refine .get ?_
  rw [h.resolveType w]
  cases source.convert (w.resolveType a) with
  | ok files => exact .modify (h.addFiles files)
  | error errors => exact .throw _ h

theorem exec_package_bind {α : Type} {k : String} {p : Package} {s : PackageSet}
    (hp : s.packages.get? k = some p) (f : Package → BuildM α) :
    (package k >>= f).exec s = (f p).exec s := by
  rw [exec_bind, package, exec_bind, exec_get]
  simp only [hp, exec_pure]

theorem exec_package_bind_none {α : Type} {k : String} {s : PackageSet}
    (hp : s.packages.get? k = none) (f : Package → BuildM α) :
    (package k >>= f).exec s = (.error (.packageNotFound k), s) := by
  rw [exec_bind, package, exec_bind, exec_get]
  simp only [hp]
  rfl

theorem exec_materialize_of_marked {k : String} {p : Package} {s : PackageSet}
    (hp : s.packages.get? k = some p) (hm : p.materialized = true) :
    (w.materialize k).exec s = (.ok (), s) := by
  rw [materialize, exec_package_bind hp, if_pos hm]
  rfl

theorem exec_materialize_of_convertible {k : String} {p : Package} {s : PackageSet}
    (hp : s.packages.get? k = some p) (hm : ¬ p.materialized = true)
    (hall : ∀ source ∈ p.sources, w.Convertible s source) :
    (w.materialize k).exec s = (.ok (), (s.addFiles (p.sources.flatMap (w.converted s))).update k
      fun p => { p with materialized := true }) := by
  rw [materialize, exec_package_bind hp, if_neg hm, exec_bind, w.exec_materializeSources hall]
  rfl

/-- `name` is converted once more if it has no mark, and gets it. -/
theorem alike_materialize_own (ha : a.Held w) (h : Twin name a b) :
    Alike (Twin name) (w.materialize name) (w.materialize name) a b := by
  obtain ⟨p, hpa, hpb, hrank⟩ := h.own
  have hexeca := w.exec_materialize_of_marked hpa rfl
  by_cases hm : p.materialized = true
  · have hexecb := w.exec_materialize_of_marked hpb hm
    constructor <;> rw [hexeca, hexecb]
    exact h
  · have hheld := ha.holds name _ hpa rfl
    have hall : ∀ source ∈ p.sources, w.Convertible b source := by
      intro source hsource
      rw [Convertible, h.resolveType w]
      exact hheld.convertible source hsource
    have hexecb := w.exec_materialize_of_convertible hpb hm hall
    constructor <;> rw [hexeca, hexecb]
    have hpb' : (b.addFiles (p.sources.flatMap (w.converted b))).packages.get? name = some p := hpb
    refine ⟨fun k hk => ?_, ⟨{ p with materialized := true }, hpa, ?_, hrank⟩, fun k => ?_, ?_, ?_, ?_⟩
    · rw [PackageSet.get?_update, if_neg hk]
      exact h.others k hk
    · rw [PackageSet.get?_update_of_some hpb', if_pos rfl]
    · rw [PackageSet.files_update, get?_addFiles, h.converted w, h.files]
      exact hheld.last k
    · rw [PackageSet.symbols_update]
      exact h.symbols
    · rw [PackageSet.linked_update]
      exact h.linked
    · rw [PackageSet.linking_update]
      exact h.linking

theorem alike_materialize (k : String) (ha : a.Held w) (h : Twin name a b) :
    Alike (Twin name) (w.materialize k) (w.materialize k) a b := by
  by_cases hk : k = name
  · rw [hk]
    exact w.alike_materialize_own ha h
  · have hpackage := h.others k hk
    cases hp : a.packages.get? k with
    | none =>
        rw [hp] at hpackage
        have hthrow : Alike (Twin name) (throw (.packageNotFound k)) (throw (.packageNotFound k)) a b :=
          .throw (α := Unit) _ h
        exact .of_exec (exec_package_bind_none hp _) (exec_package_bind_none hpackage _) hthrow
    | some p =>
        rw [hp] at hpackage
        refine .of_exec (exec_package_bind hp _) (exec_package_bind hpackage _) ?_
        split
        · exact .pure () h
        · refine .bind (.forM h fun source _ _ _ h => w.alike_materializeSource source h)
            fun _ a₁ b₁ h₁ => ?_
          exact .modify (h₁.update hk _)

/-! ## Linking -/

/-- Twins of which the one with the mark holds the files of its converted packages. -/
def HeldTwin (name : String) (a b : PackageSet) : Prop :=
  a.Held w ∧ Twin name a b

/-- A step of building keeps the files of converted packages. -/
theorem alike_of_kept {α : Type} {x y : BuildM α} (h : w.HeldTwin name a b)
    (hkept : Kept w (heldFiles w) [] a (x.exec a).2) (halike : Alike (Twin name) x y a b) :
    Alike (w.HeldTwin name) x y a b :=
  ⟨halike.outcome, hkept.keeps h.1, halike.related⟩

theorem alike_linkAlone (file : String) (f : FileDescriptor) (h : w.HeldTwin name a b) :
    Alike (w.HeldTwin name) (linkAlone file f) (linkAlone file f) a b := by
  refine .get ?_
  rw [h.2.symbols]
  cases a.symbols.importFile f with
  | error cause => exact .throw _ h
  | ok symbols =>
      refine .bind (.modify ⟨h.1.of_packages rfl rfl, { h.2 with symbols := rfl }⟩)
        fun _ a₁ b₁ h₁ => ?_
      cases symbols.link f with
      | error cause => exact .throw _ h₁
      | ok linked =>
          refine .bind (.modify ⟨h₁.1.of_packages rfl rfl, { h₁.2 with linked := ?_ }⟩)
            fun _ _ _ h₂ => .pure linked h₂
          rw [h₁.2.linked]

theorem alike_whileLinking {α : Type} (file : String) {x y : BuildM α} (h : w.HeldTwin name a b)
    (hxy : ∀ a' b', w.HeldTwin name a' b' → Alike (w.HeldTwin name) x y a' b') :
    Alike (w.HeldTwin name) (whileLinking file x) (whileLinking file y) a b := by
  have hpush : w.HeldTwin name { a with linking := a.linking ++ [file] }
      { b with linking := b.linking ++ [file] } :=
    ⟨h.1.of_packages rfl rfl, { h.2 with linking := by rw [h.2.linking] }⟩
  obtain ⟨houtcome, hheld, htwin⟩ := hxy _ _ hpush
  constructor <;> rw [exec_whileLinking, exec_whileLinking]
  · exact houtcome
  · exact ⟨hheld.of_packages rfl rfl, { htwin with linking := by rw [htwin.linking] }⟩

section Linking

variable (hw : w.repository.Tidy)

include hw

theorem alike_load (k : String) (h : w.HeldTwin name a b) :
    Alike (w.HeldTwin name) (w.load k) (w.load k) a b :=
  w.alike_of_kept h ((keeps_heldFiles hw).ensures_load k).moves (w.alike_loadFrom _ _ k h.2)

theorem alike_foreignFile {file package : String} (hnew : a.files.get? file = none)
    (hforeign : w.repository.packageOf file = .ok (package, false)) (h : w.HeldTwin name a b) :
    Alike (w.HeldTwin name) (w.foreignFile file) (w.foreignFile file) a b := by
  refine w.alike_of_kept h ((keeps_heldFiles hw).ensures_foreignFile hnew hforeign h.1).moves ?_
  constructor <;> rw [w.exec_foreignFile, w.exec_foreignFile] <;>
    rcases w.foreign? file with e | _ | f
  · rfl
  · rfl
  · rfl
  · exact h.2
  · exact h.2
  · exact h.2.insertFile file f

theorem alike_resolveFile (file : String) (h : w.HeldTwin name a b) :
    Alike (w.HeldTwin name) (w.resolveFile file) (w.resolveFile file) a b := by
  refine .get ?_
  rw [h.2.files file]
  cases hfile : a.files.get? file with
  | some f => exact .pure f h
  | none =>
      refine .lift_bind h ?_
      rintro ⟨package, isLocal⟩ hpackage
      cases isLocal with
      | false =>
          simp only [Bool.false_eq_true, if_false]
          exact w.alike_foreignFile hw hfile hpackage h
      | true =>
          simp only [if_true]
          refine .bind (w.alike_load hw package h) fun _ a₁ b₁ h₁ => ?_
          refine .bind (w.alike_of_kept h₁ ((keeps_heldFiles hw).ensures_materialize package).moves
            (w.alike_materialize package h₁.1 h₁.2)) fun _ a₂ b₂ h₂ => ?_
          refine .get ?_
          rw [h₂.2.files file]
          cases a₂.files.get? file with
          | some f => exact .pure f h₂
          | none => exact .throw _ h₂

theorem alike_linkFrom (depth : Nat) (file : String) (h : w.HeldTwin name a b) :
    Alike (w.HeldTwin name) (w.linkFrom depth file) (w.linkFrom depth file) a b := by
  induction depth generalizing file a b with
  | zero =>
      refine .get ?_
      rw [h.2.linking]
      exact .throw _ h
  | succ depth ih =>
      rw [linkFrom]
      refine .get ?_
      rw [h.2.linked]
      cases a.linked.get? file with
      | some linked => exact .pure linked h
      | none =>
          refine .get ?_
          rw [h.2.linking]
          split
          · refine .get ?_
            rw [h.2.linking]
            exact .throw _ h
          · refine .bind (w.alike_resolveFile hw file h) fun f a₁ b₁ h₁ => ?_
            refine w.alike_whileLinking file h₁ fun a₂ b₂ h₂ => ?_
            refine .bind (.forM h₂ fun d _ a₃ b₃ h₃ => ?_) fun _ _ _ h₄ => w.alike_linkAlone file f h₄
            exact .bind (ih d h₃) fun _ _ _ h => .pure () h

theorem alike_link (file : String) (h : w.HeldTwin name a b) :
    Alike (w.HeldTwin name) (w.link file) (w.link file) a b :=
  w.alike_linkFrom hw _ file h

end Linking
end Workspace
end Schematic
