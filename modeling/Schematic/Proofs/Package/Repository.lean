import Schematic.Package.Set
import Schematic.Proofs.Dict

/-!
# What a repository says of its packages

A package cannot be summarized only where the repository itself reports an error, and the
dependencies of a package are local wherever the repository is of one mind about which
packages are.
-/

namespace Schematic

section Sequence

variable {α β ε : Type}

theorem bind_eq_ok {x : Except ε α} {f : α → Except ε β} {b : β} (h : x >>= f = .ok b) :
    ∃ a, x = .ok a ∧ f a = .ok b := by
  cases x with
  | ok a => exact ⟨a, rfl, h⟩
  | error e => cases h

theorem bind_eq_error {x : Except ε α} {f : α → Except ε β} {e : ε} (h : x >>= f = .error e) :
    x = .error e ∨ ∃ a, x = .ok a ∧ f a = .error e := by
  cases x with
  | ok a => exact Or.inr ⟨a, rfl, h⟩
  | error e' =>
      cases h
      exact Or.inl rfl

theorem bind_of_ok {x : Except ε α} {a : α} (h : x = .ok a) (f : α → Except ε β) :
    x >>= f = f a := by
  rw [h]
  rfl

theorem exists_of_mapM_error {f : α → Except ε β} {l : List α} {e : ε}
    (h : l.mapM f = .error e) : ∃ a ∈ l, f a = .error e := by
  induction l with
  | nil => cases h
  | cons a rest ih =>
      rw [List.mapM_cons] at h
      rcases bind_eq_error h with ha | ⟨b, -, h⟩
      · exact ⟨a, List.mem_cons_self, ha⟩
      · rcases bind_eq_error h with hrest | ⟨bs, -, h⟩
        · obtain ⟨x, hx, hfx⟩ := ih hrest
          exact ⟨x, List.mem_cons_of_mem a hx, hfx⟩
        · cases h

theorem exists_of_mem_mapM {f : α → Except ε β} {l : List α} {bs : List β} {b : β}
    (h : l.mapM f = .ok bs) (hb : b ∈ bs) : ∃ a ∈ l, f a = .ok b := by
  induction l generalizing bs with
  | nil =>
      cases h
      cases hb
  | cons a rest ih =>
      rw [List.mapM_cons] at h
      obtain ⟨b', ha, h⟩ := bind_eq_ok h
      obtain ⟨bs', hrest, h⟩ := bind_eq_ok h
      cases h
      rcases List.mem_cons.mp hb with rfl | hb
      · exact ⟨a, List.mem_cons_self, ha⟩
      · obtain ⟨x, hx, hfx⟩ := ih hrest hb
        exact ⟨x, List.mem_cons_of_mem a hx, hfx⟩

theorem exists_mem_of_mapM {f : α → Except ε β} {l : List α} {bs : List β} {a : α}
    (h : l.mapM f = .ok bs) (ha : a ∈ l) : ∃ b ∈ bs, f a = .ok b := by
  induction l generalizing bs with
  | nil => cases ha
  | cons first rest ih =>
      rw [List.mapM_cons] at h
      obtain ⟨b, hb, h⟩ := bind_eq_ok h
      obtain ⟨bs', hrest, h⟩ := bind_eq_ok h
      cases h
      rcases List.mem_cons.mp ha with rfl | ha
      · exact ⟨b, List.mem_cons_self, hb⟩
      · obtain ⟨b', hb', hfa⟩ := ih hrest ha
        exact ⟨b', List.mem_cons_of_mem b hb', hfa⟩

end Sequence

namespace Repository

variable {r : Repository}

/-- The repository gives `e` as the reason why a package cannot be read or the package of a
file cannot be told. -/
def Reports (r : Repository) (e : BuildError) : Prop :=
  (∃ name, r.contents name = .error e) ∨ ∃ file, r.packageOf file = .error e

/-- The flag that comes with the package of a file says whether that package is local. -/
def Consistent (r : Repository) : Prop :=
  ∀ file name isLocal, r.packageOf file = .ok (name, isLocal) → isLocal = r.isLocal name

theorem importedPackage_error {file : String} {e : BuildError}
    (h : r.importedPackage file = .error e) : r.packageOf file = .error e := by
  rcases bind_eq_error h with h | ⟨found, -, h⟩
  · exact h
  · cases h

theorem importedPackage_some {file name : String} (h : r.importedPackage file = .ok (some name)) :
    r.packageOf file = .ok (name, true) := by
  obtain ⟨⟨found, isLocal⟩, hfound, h⟩ := bind_eq_ok h
  cases isLocal <;> cases h
  exact hfound

theorem sourceDependencies_error {source : SourceFile} {e : BuildError}
    (h : r.sourceDependencies source = .error e) : ∃ file, r.packageOf file = .error e := by
  rcases bind_eq_error h with h | ⟨imported, -, h⟩
  · obtain ⟨file, -, hfile⟩ := exists_of_mapM_error h
    exact ⟨file, importedPackage_error hfile⟩
  · cases h

theorem isLocal_of_mem_sourceDependencies (hr : r.Consistent) {source : SourceFile}
    {names : List String} {name : String} (h : r.sourceDependencies source = .ok names)
    (hname : name ∈ names) : r.isLocal name = true := by
  obtain ⟨imported, himported, h⟩ := bind_eq_ok h
  cases h
  rcases List.mem_append.mp hname with hname | hname
  · exact (List.mem_filter.mp hname).2
  · obtain ⟨_, hmem, rfl⟩ := List.mem_filterMap.mp hname
    obtain ⟨file, -, hfile⟩ := exists_of_mem_mapM himported hmem
    exact (hr file name true (importedPackage_some hfile)).symm

theorem reports_of_summarize_error {name : String} {e : BuildError}
    (h : r.summarize name = .error e) : r.Reports e := by
  rcases bind_eq_error h with h | ⟨contents, -, h⟩
  · exact Or.inl ⟨name, h⟩
  · rcases bind_eq_error h with h | ⟨found, -, h⟩
    · obtain ⟨source, -, hsource⟩ := exists_of_mapM_error h
      exact Or.inr (sourceDependencies_error hsource)
    · cases h

theorem state_of_summarize {name : String} {p : Package} (h : r.summarize name = .ok p) :
    p.state = .summarized := by
  obtain ⟨contents, -, h⟩ := bind_eq_ok h
  obtain ⟨found, -, h⟩ := bind_eq_ok h
  cases h
  rfl

/-- What a package needs is local. -/
theorem isLocal_of_mem_dependencies (hr : r.Consistent) {name d : String} {p : Package}
    (h : r.summarize name = .ok p) (hd : d ∈ p.dependencies) : r.isLocal d = true := by
  obtain ⟨contents, -, h⟩ := bind_eq_ok h
  obtain ⟨found, hfound, h⟩ := bind_eq_ok h
  cases h
  have hflat := (List.mem_filter.mp (Sorted.mem_of_mem_ofList hd)).1
  obtain ⟨names, hnames, hd⟩ := List.mem_flatten.mp hflat
  obtain ⟨source, -, hsource⟩ := exists_of_mem_mapM hfound hnames
  exact isLocal_of_mem_sourceDependencies hr hsource hd

end Repository
end Schematic
