import Schematic.Proofs.Link.Sound
import Schematic.Proofs.Link.Visible

/-!
# Names in the way

A name that is not written in full is tried in one scope after the other, in the table of all
files.  A file that is never imported may declare the name in a scope nearer by than the one that
is meant.  Linking then stops there and refuses what it found.  This is all that such a file can do:
two tables that agree on what a file sees never link it to different results.
-/

namespace Schematic
namespace Symbols

variable {s s' : Symbols} {f : FileDescriptor}

/-! ## Tables that agree on what a file sees -/

/-- Apart from packages, both tables have the same for the file and for those that it imports. -/
def SameFor (s s' : Symbols) (f : FileDescriptor) : Prop :=
  ∀ name symbol, symbol.kind ≠ .package →
    symbol.file = f.nameText ∨ symbol.file ∈ f.dependencies →
    (s.table.get? name = some symbol ↔ s'.table.get? name = some symbol)

theorem SameFor.symm (h : s.SameFor s' f) : s'.SameFor s f :=
  fun name symbol hkind hsees => (h name symbol hkind hsees).symm

/-- The files imported in between are none that the file sees. -/
theorem SameFor.imports {fs : List FileDescriptor} (hunseen : ∀ g ∈ fs, f.sees g = false)
    (h : fs.foldlM importFile s = .ok s') : s.SameFor s' f := by
  obtain ⟨hkeeps, -, horigin⟩ := imports_eq_ok h
  intro name symbol hkind hsees
  refine ⟨hkeeps name symbol, fun hnew => ?_⟩
  rcases horigin name symbol hnew with hold | hpackage | ⟨g, hg, hmem⟩
  · exact hold
  · exact absurd hpackage hkind
  · have hgsees : f.sees g = true := by
      rw [FileDescriptor.sees, Bool.or_eq_true, decide_eq_true_eq, List.contains_iff_mem,
        ← Declared.file_of_mem_names hmem]
      exact hsees
    rw [hunseen g hg] at hgsees
    cases hgsees

/-! ## What may differ -/

/-- With `s` the file uses a name for something that it sees.  With `s'` a name tried before is
found, for something that the file does not see, and this is what the error is about. -/
def Hides (s s' : Symbols) (f : FileDescriptor) (e : LinkError) : Prop :=
  ∃ u ∈ f.uses, ∃ full symbol other hidden,
    s.target? u = some (full, symbol) ∧ (symbol.file = f.nameText ∨ symbol.file ∈ f.dependencies) ∧
    s'.target? u = some (other, hidden) ∧ hidden.file ≠ f.nameText ∧
    hidden.file ∉ f.dependencies ∧ [other, full].Sublist u.candidates ∧ e.refused? = some other

theorem SameFor.follows (h : s.SameFor s' f) {u : Use} (hu : u ∈ f.uses) :
    Linker.Follows ⟨f.nameText, f.dependencies, s⟩ s' (s.Hides s' f) u := by
  intro full symbol htarget hsees
  have hfull : s.target? u = some (full, symbol) := htarget
  rw [target?_eq] at hfull
  obtain ⟨before, _, after, hcandidates, hfound, hbefore⟩ := List.findSome?_eq_some_iff.mp hfull
  obtain ⟨_, hfind, heq⟩ := Option.map_eq_some_iff.mp hfound
  cases heq
  obtain ⟨hlookup, haccepts⟩ := Option.filter_eq_some_iff.mp hfind
  have hlookup' := (h _ _ (Use.not_package_of_accepts haccepts) hsees).mp hlookup
  have hfind' : (s'.lookup full).filter u.accepts = some symbol :=
    Option.filter_eq_some_iff.mpr ⟨hlookup', haccepts⟩
  -- The other table has `full` as well, so only the names tried before it matter.
  cases hfirst : before.findSome? fun c =>
      ((s'.lookup c).filter u.accepts).map fun symbol => (c, symbol) with
  | none =>
      left
      rw [target?_eq, hcandidates, List.findSome?_append, hfirst, Option.none_or,
        List.findSome?_cons, hfind']
      rfl
  | some target =>
      right
      obtain ⟨other, hidden⟩ := target
      have htarget' : s'.target? u = some (other, hidden) := by
        rw [target?_eq, hcandidates, List.findSome?_append, hfirst, Option.some_or]
      obtain ⟨c, hc, hother⟩ := List.exists_of_findSome?_eq_some hfirst
      obtain ⟨_, hhidden, heq⟩ := Option.map_eq_some_iff.mp hother
      cases heq
      obtain ⟨hlookupOther, hacceptsOther⟩ := Option.filter_eq_some_iff.mp hhidden
      have hunseen : ¬ (hidden.file = f.nameText ∨ hidden.file ∈ f.dependencies) := by
        intro hseen
        have hold := (h _ _ (Use.not_package_of_accepts hacceptsOther) hseen).mpr hlookupOther
        have hfilter : (s.lookup other).filter u.accepts = some hidden :=
          Option.filter_eq_some_iff.mpr ⟨hold, hacceptsOther⟩
        have hnone := hbefore other hc
        rw [hfilter] at hnone
        cases hnone
      have hsublist : [other, full].Sublist u.candidates := by
        rw [hcandidates]
        exact (List.singleton_sublist.mpr hc).append (List.singleton_sublist.mpr List.mem_cons_self)
      rw [not_or] at hunseen
      exact ⟨other, hidden, htarget', not_or.mpr hunseen, fun e he =>
        ⟨u, hu, full, symbol, other, hidden, htarget, hsees, htarget', hunseen.1, hunseen.2,
          hsublist, he⟩⟩

/-- Two tables that agree on what a file sees link it to the same, or both fail.  Otherwise the one
that fails has something that the file does not see in the way of a name that the file uses. -/
theorem link_same_or_hidden (hready : s.Ready f) (hready' : s'.Ready f) (hsame : s.SameFor s' f) :
    (∃ linked, s.link f = .ok linked ∧ s'.link f = .ok linked) ∨
    (∃ e e', s.link f = .error e ∧ s'.link f = .error e') ∨
    (∃ linked e, s.link f = .ok linked ∧ s'.link f = .error e ∧ s.Hides s' f e) ∨
    ∃ e linked, s.link f = .error e ∧ s'.link f = .ok linked ∧ s'.Hides s f e := by
  have hagain := link_again hready'.2 fun _ => hsame.follows
  have hagain' := link_again hready.2 fun _ => hsame.symm.follows
  cases hlink : s.link f with
  | ok linked =>
      rcases hagain linked hlink with hlink' | ⟨e, he, hlink'⟩
      · exact Or.inl ⟨linked, rfl, hlink'⟩
      · exact Or.inr (Or.inr (Or.inl ⟨linked, e, rfl, hlink', he⟩))
  | error e =>
      cases hlink' : s'.link f with
      | error e' => exact Or.inr (Or.inl ⟨e, e', rfl, rfl⟩)
      | ok linked =>
          rcases hagain' linked hlink' with hok | ⟨e', he', herror⟩
          · rw [hlink] at hok
            cases hok
          · rw [hlink, Except.error.injEq] at herror
            exact Or.inr (Or.inr (Or.inr ⟨e, linked, rfl, rfl, herror ▸ he'⟩))

/-- A package, with a type that packages inside it use by its short name. -/
def outer : FileDescriptor :=
  { name := some "base.proto", package := some "a", messages := [{ name := some "X" }] }

def user : FileDescriptor :=
  { name := some "f.proto", package := some "a.b", dependencies := ["base.proto"]
    messages :=
      [{ name := some "M"
         fields := [{ name := some "x", number := some 1, typeName := some "X" }] }] }

/-- A file of the package of `user` that `user` does not import. -/
def neighbour : FileDescriptor :=
  { name := some "other.proto", package := some "a.b", messages := [{ name := some "X" }] }

/-- Two tables for `user`, before and after its neighbour is imported. -/
theorem exists_neighbour : ∃ s s' : Symbols, [outer, user].foldlM importFile {} = .ok s ∧
    [neighbour].foldlM importFile s = .ok s' ∧ s.Ready user ∧ s'.Ready user ∧ s.SameFor s' user ∧
    (s.link user).isOk = true ∧
    s'.link user = .error (.notImported "a.b.M.x" "a.b.X" "other.proto") := by
  refine ⟨_, _, rfl, rfl, ?_, ?_, ?_, ?_, rfl⟩
  · exact ⟨by decide +kernel, by decide +kernel⟩
  · exact ⟨by decide +kernel, by decide +kernel⟩
  · exact SameFor.imports (by decide +kernel : ∀ g ∈ [neighbour], user.sees g = false) rfl
  · decide +kernel

theorem link_same_or_hidden_neighbour : ∃ s s' : Symbols,
    s.Ready user ∧ s'.Ready user ∧ s.SameFor s' user ∧
    ((∃ linked, s.link user = .ok linked ∧ s'.link user = .ok linked) ∨
    (∃ e e', s.link user = .error e ∧ s'.link user = .error e') ∨
    (∃ linked e, s.link user = .ok linked ∧ s'.link user = .error e ∧ s.Hides s' user e) ∨
    ∃ e linked, s.link user = .error e ∧ s'.link user = .ok linked ∧ s'.Hides s user e) := by
  obtain ⟨s, s', -, -, hready, hready', hsame, -⟩ := exists_neighbour
  exact ⟨s, s', hready, hready', hsame, link_same_or_hidden hready hready' hsame⟩

/-- A file that is not imported can make linking fail. -/
theorem link_fails_by_neighbour : ∃ (s s' : Symbols) (linked : LinkedFile),
    [outer, user].foldlM importFile {} = .ok s ∧ [neighbour].foldlM importFile s = .ok s' ∧
    s.Ready user ∧ s'.Ready user ∧ s.SameFor s' user ∧ s.link user = .ok linked ∧
    s'.link user = .error (.notImported "a.b.M.x" "a.b.X" "other.proto") := by
  obtain ⟨s, s', hs, hs', hready, hready', hsame, hok, herror⟩ := exists_neighbour
  cases hlink : s.link user with
  | error e =>
      rw [hlink] at hok
      cases hok
  | ok linked => exact ⟨s, s', linked, hs, hs', hready, hready', hsame, hlink, herror⟩

end Symbols
end Schematic
