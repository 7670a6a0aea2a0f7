import Schematic.Text.Basic
import Mathlib.Data.List.Basic

/-!
# Cutting and joining text

A text is cut at its last separator into what stands before and what stands after, and the latter has no
separator.  An ending that was put behind a text can be taken off again.
-/

namespace Schematic
namespace Text

theorem toList_join_cons (sep piece : String) (others : List String) :
    (join sep (piece :: others)).toList =
      piece.toList ++ others.flatMap fun other => sep.toList ++ other.toList := by
  induction others generalizing piece with
  | nil => exact (List.append_nil _).symm
  | cons next others ih =>
      have hjoin : join sep (piece :: next :: others) = piece ++ sep ++ join sep (next :: others) := rfl
      rw [hjoin, String.toList_append, String.toList_append, ih, List.flatMap_cons,
        List.append_assoc, List.append_assoc]

/-! ## The last separator -/

section Last

variable {sep : Char}

theorem cutLastList?_of_not_mem {s : List Char} (h : sep ∉ s) : cutLastList? sep s = none := by
  induction s with
  | nil => rfl
  | cons c rest ih =>
      have hne : c ≠ sep := fun heq => h (heq ▸ List.mem_cons_self)
      rw [cutLastList?, ih fun hrest => h (List.mem_cons_of_mem _ hrest)]
      exact if_neg hne

theorem cutLastList?_append (before : List Char) {after : List Char} (h : sep ∉ after) :
    cutLastList? sep (before ++ sep :: after) = some (before, after) := by
  induction before with
  | nil =>
      rw [List.nil_append, cutLastList?, cutLastList?_of_not_mem h]
      exact if_pos rfl
  | cons c rest ih => rw [List.cons_append, cutLastList?, ih]

theorem eq_append_of_cutLastList? {s before after : List Char}
    (h : cutLastList? sep s = some (before, after)) : s = before ++ sep :: after := by
  induction s generalizing before with
  | nil => cases h
  | cons c rest ih =>
      rw [cutLastList?] at h
      split at h
      · rename_i hrest
        cases h
        rw [ih hrest]
        rfl
      · split at h
        · rename_i heq
          cases h
          rw [heq]
          rfl
        · cases h

/-- A text has no separator, or a last one. -/
theorem exists_last (sep : Char) (s : List Char) :
    sep ∉ s ∨ ∃ before after, s = before ++ sep :: after ∧ sep ∉ after := by
  induction s with
  | nil => exact Or.inl List.not_mem_nil
  | cons c rest ih =>
      rcases ih with hrest | ⟨before, after, rfl, hafter⟩
      · by_cases hc : c = sep
        · exact Or.inr ⟨[], rest, by rw [hc]; rfl, hrest⟩
        · exact Or.inl (List.not_mem_cons_of_ne_of_not_mem (Ne.symm hc) hrest)
      · exact Or.inr ⟨c :: before, after, rfl, hafter⟩

theorem cutLast?_of_not_mem {s : String} (h : sep ∉ s.toList) : cutLast? sep s = none := by
  rw [cutLast?, cutLastList?_of_not_mem h]
  rfl

theorem cutLast?_of_toList {s before after : String}
    (hs : s.toList = before.toList ++ sep :: after.toList) (h : sep ∉ after.toList) :
    cutLast? sep s = some (before, after) := by
  rw [cutLast?, hs, cutLastList?_append _ h]
  show some (String.ofList before.toList, String.ofList after.toList) = _
  rw [String.ofList_toList, String.ofList_toList]

end Last

theorem cutLast?_dot (package : String) {name : String} (h : '.' ∉ name.toList) :
    cutLast? '.' (package ++ "." ++ name) = some (package, name) := by
  refine cutLast?_of_toList ?_ h
  rw [String.toList_append, String.toList_append, List.append_assoc]
  rfl

theorem cutLast?_slash (dir : String) {base : String} (h : '/' ∉ base.toList) :
    cutLast? '/' (dir ++ "/" ++ base) = some (dir, base) := by
  refine cutLast?_of_toList ?_ h
  rw [String.toList_append, String.toList_append, List.append_assoc]
  rfl

theorem length_of_cutLast? {sep : Char} {s before after : String}
    (h : cutLast? sep s = some (before, after)) : s.length = before.length + 1 + after.length := by
  obtain ⟨⟨_, _⟩, hlist, heq⟩ := Option.map_eq_some_iff.mp h
  cases heq
  rw [← String.length_toList, eq_append_of_cutLastList? hlist, List.length_append, List.length_cons,
    String.length_ofList, String.length_ofList]
  omega

/-- A path is a name, or a folder and a name in it. -/
theorem exists_folder (path : String) :
    '/' ∉ path.toList ∨ ∃ dir base, path = dir ++ "/" ++ base ∧ '/' ∉ base.toList := by
  refine (exists_last '/' path.toList).imp id ?_
  rintro ⟨before, after, hpath, hafter⟩
  refine ⟨String.ofList before, String.ofList after, ?_, by rwa [String.toList_ofList]⟩
  simp only [← String.toList_inj, hpath, String.toList_append, String.toList_ofList,
    List.append_assoc]
  rfl

/-! ## Endings -/

theorem endsWith_iff {ending s : String} : endsWith ending s = true ↔ ∃ rest, s = rest ++ ending := by
  rw [endsWith, List.isSuffixOf_iff_suffix]
  constructor
  · rintro ⟨rest, hrest⟩
    refine ⟨String.ofList rest, ?_⟩
    rw [← String.toList_inj, String.toList_append, String.toList_ofList, hrest]
  · rintro ⟨rest, rfl⟩
    exact ⟨rest.toList, by rw [String.toList_append]⟩

theorem withoutEnding?_append (s ending : String) : withoutEnding? ending (s ++ ending) = some s := by
  have hends : ending.toList.isSuffixOf (s ++ ending).toList = true :=
    endsWith_iff.mpr ⟨s, rfl⟩
  rw [withoutEnding?, withoutEndingList?, if_pos hends, String.toList_append, List.length_append,
    Nat.add_sub_cancel, List.take_left, Option.map_some, String.ofList_toList]

theorem withoutEnding?_eq_none {ending s : String} (h : endsWith ending s = false) :
    withoutEnding? ending s = none := by
  have hends : ¬ ending.toList.isSuffixOf s.toList = true := Bool.eq_false_iff.mp h
  rw [withoutEnding?, withoutEndingList?, if_neg hends]
  rfl

theorem length_withoutEnding (ending s : String) :
    s.length ≤ ((withoutEnding? ending s).getD s).length + ending.length := by
  rw [withoutEnding?, withoutEndingList?]
  split
  · simp only [Option.map_some, Option.getD_some, String.length_ofList, List.length_take,
      String.length_toList]
    omega
  · exact Nat.le_add_right _ _

theorem endsWith_append (a b c : String) : endsWith (a ++ c) (b ++ c) = endsWith a b := by
  rw [Bool.eq_iff_iff, endsWith_iff, endsWith_iff]
  constructor
  · rintro ⟨rest, h⟩
    rw [← String.append_assoc, String.append_left_inj] at h
    exact ⟨rest, h⟩
  · rintro ⟨rest, rfl⟩
    exact ⟨rest, String.append_assoc⟩

end Text
end Schematic
