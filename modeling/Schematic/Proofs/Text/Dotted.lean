import Schematic.Link.Symbols
import Mathlib.Data.List.Basic

/-!
# Dotted names

Full names are built by putting a dot and a name behind a scope.  As long as the outermost scope is
not empty and does not start with a dot, none of the special cases for empty scopes and for
leading dots is ever met.
-/

namespace Schematic
namespace Text

theorem withoutStartList?_eq_some_iff {start s rest : List Char} :
    withoutStartList? start s = some rest ↔ s = start ++ rest := by
  induction start generalizing s with
  | nil => exact ⟨Option.some.inj, congrArg some⟩
  | cons c start ih =>
      cases s with
      | nil => simp [withoutStartList?]
      | cons d s =>
          rw [withoutStartList?, List.cons_append, List.cons.injEq]
          split
          · rename_i hc
            rw [ih, hc, eq_self, true_and]
          · rename_i hc
            exact ⟨fun h => (by cases h), fun h => absurd h.1.symm hc⟩

theorem withoutStart?_eq_some_iff {start s rest : String} :
    withoutStart? start s = some rest ↔ s = start ++ rest := by
  rw [withoutStart?, Option.map_eq_some_iff, ← String.toList_inj, String.toList_append,
    ← withoutStartList?_eq_some_iff]
  constructor
  · rintro ⟨chars, hchars, rfl⟩
    rwa [String.toList_ofList]
  · exact fun h => ⟨_, h, String.ofList_toList⟩

theorem startsWith_eq_isSome (start s : String) : startsWith start s = (withoutStart? start s).isSome := by
  rw [startsWith, withoutStart?, Option.isSome_map]

theorem startsWith_iff {start s : String} : startsWith start s = true ↔ ∃ rest, s = start ++ rest := by
  rw [startsWith_eq_isSome, Option.isSome_iff_exists]
  exact exists_congr fun _ => withoutStart?_eq_some_iff

theorem withoutStart?_eq_none {start s : String} (h : startsWith start s = false) :
    withoutStart? start s = none := by
  rw [← Option.not_isSome_iff_eq_none, ← startsWith_eq_isSome, h]
  exact Bool.false_ne_true

theorem withoutStart?_dot (s : String) : withoutStart? "." ("." ++ s) = some s :=
  withoutStart?_eq_some_iff.mpr rfl

theorem not_mem_of_mem_piecesList {sep : Char} {s piece : List Char}
    (h : piece ∈ piecesList sep s) : sep ∉ piece := by
  induction s generalizing piece with
  | nil =>
      rw [List.mem_singleton.mp h]
      exact List.not_mem_nil
  | cons c rest ih =>
      rw [piecesList] at h
      split at h
      · rcases List.mem_cons.mp h with rfl | h
        · exact List.not_mem_nil
        · exact ih h
      · rename_i hc
        split at h
        · rw [List.mem_singleton.mp h, List.mem_singleton]
          exact fun heq => hc heq.symm
        · rename_i first others hrest
          rcases List.mem_cons.mp h with rfl | h
          · rw [List.mem_cons, not_or]
            exact ⟨fun heq => hc heq.symm, ih (by rw [hrest]; exact List.mem_cons_self)⟩
          · exact ih (by rw [hrest]; exact List.mem_cons_of_mem first h)

theorem not_mem_of_mem_pieces {sep : Char} {s piece : String} (h : piece ∈ pieces sep s) :
    sep ∉ piece.toList := by
  obtain ⟨chars, hchars, rfl⟩ := List.mem_map.mp h
  rw [String.toList_ofList]
  exact not_mem_of_mem_piecesList hchars

theorem join_cons_cons (sep a b : String) (rest : List String) :
    join sep (a :: b :: rest) = a ++ sep ++ join sep (b :: rest) := rfl

end Text

/-! ## Scopes -/

/-- A scope that is not empty and does not start with a dot. -/
def Rooted (scope : String) : Prop :=
  ∃ c rest, scope.toList = c :: rest ∧ c ≠ '.'

namespace Rooted

variable {scope : String}

theorem of_startsWith (h : scope ≠ "") (hdot : Text.startsWith "." scope = false) :
    Rooted scope := by
  cases hchars : scope.toList with
  | nil => exact absurd (String.toList_eq_nil_iff.mp hchars) h
  | cons c rest =>
      refine ⟨c, rest, hchars, fun hc => ?_⟩
      have hstart : Text.startsWith "." scope = true := by
        rw [Text.startsWith, hchars, hc]
        rfl
      rw [hstart] at hdot
      cases hdot

theorem append (h : Rooted scope) (s : String) : Rooted (scope ++ s) := by
  obtain ⟨c, rest, hchars, hc⟩ := h
  exact ⟨c, rest ++ s.toList, by rw [String.toList_append, hchars, List.cons_append], hc⟩

theorem ne_empty (h : Rooted scope) : scope ≠ "" := by
  rintro rfl
  obtain ⟨c, rest, hchars, -⟩ := h
  cases hchars

theorem withoutLeading (h : Rooted scope) : Text.withoutLeading '.' scope = scope := by
  obtain ⟨c, rest, hchars, hc⟩ := h
  have hdrop : scope.toList.dropWhile (· == '.') = scope.toList := by
    rw [hchars, List.dropWhile_cons_of_neg (by simpa using hc)]
  rw [Text.withoutLeading, hdrop, String.ofList_toList]

theorem qualify (h : Rooted scope) (name : String) :
    Schematic.qualify scope name = scope ++ "." ++ name := by
  rw [Schematic.qualify, if_neg h.ne_empty]

end Rooted

/-- The scope inside nested schemas, the outermost first. -/
def scopeOf (package : String) (nest : List String) : String :=
  nest.foldl (fun scope name => scope ++ "." ++ name) package

theorem scopeOf_concat (package : String) (nest : List String) (name : String) :
    scopeOf package (nest ++ [name]) = scopeOf package nest ++ "." ++ name := by
  rw [scopeOf, List.foldl_concat]
  rfl

theorem Rooted.scopeOf {package : String} (h : Rooted package) (nest : List String) :
    Rooted (scopeOf package nest) := by
  induction nest generalizing package with
  | nil => exact h
  | cons name rest ih => exact ih ((h.append ".").append name)

/-- A name with dots is that of a scope. -/
theorem append_join (package : String) {nest : List String} (h : nest ≠ []) :
    package ++ "." ++ Text.join "." nest = scopeOf package nest := by
  induction nest generalizing package with
  | nil => exact absurd rfl h
  | cons name rest ih =>
      cases rest with
      | nil => rfl
      | cons second others =>
          have hrest := ih (package ++ "." ++ name) (List.cons_ne_nil _ _)
          rw [Text.join_cons_cons, ← String.append_assoc, ← String.append_assoc, hrest]
          rfl

/-- The name of something nested has a dot. -/
theorem dot_mem_join {outer inner : List String} (houter : outer ≠ []) (hinner : inner ≠ []) :
    '.' ∈ (Text.join "." (outer ++ inner)).toList := by
  obtain ⟨a, outer, rfl⟩ := List.exists_cons_of_ne_nil houter
  obtain ⟨b, rest, hrest⟩ : ∃ b rest, outer ++ inner = b :: rest :=
    List.exists_cons_of_ne_nil (List.append_ne_nil_of_right_ne_nil outer hinner)
  rw [List.cons_append, hrest, Text.join_cons_cons, String.toList_append, String.toList_append]
  exact List.mem_append_left _ (List.mem_append_right _ List.mem_cons_self)

end Schematic
