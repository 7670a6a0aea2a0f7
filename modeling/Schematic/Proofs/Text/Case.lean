import Mathlib
import Schematic.Proofs.Text.Cut
import Schematic.Text.Basic

/-!
# Words in letter case

An identifier in snake case is a list of words with underscores between them.  Camel case drops the
underscores and raises the first letter of a word instead, and snake case finds the words again at those
letters, since a capital behind a small letter or a digit starts a word.  For that every word needs a
second character: `a_b` becomes `AB`, which reads as one word.
-/

namespace Schematic
namespace Case

/-- A small letter or a digit. -/
def isSmall (c : Char) : Bool := c.isLower || c.isDigit

/-- A small letter, and behind it one or more small letters or digits. -/
def isWord (w : String) : Bool :=
  w.toList.head?.any Char.isLower && !w.toList.tail.isEmpty && w.toList.tail.all isSmall

/-! ## Characters -/

section Characters

variable {c : Char}

theorem ne_underscore_of_isSmall (h : isSmall c = true) : c ≠ '_' := by
  rintro rfl
  exact absurd h (by decide)

theorem isUpper_of_isSmall (h : isSmall c = true) : c.isUpper = false := by
  rcases Bool.or_eq_true_iff.mp h with hlower | hdigit
  · exact Bool.eq_false_iff.mpr (Char.not_isUpper_of_isLower hlower)
  · simp [Char.isDigit, Char.isUpper, UInt32.le_iff_toNat_le] at hdigit ⊢
    omega

theorem isSmall_of_isLower (h : c.isLower = true) : isSmall c = true :=
  Bool.or_eq_true_iff.mpr (.inl h)

theorem isUpper_toUpper_of_isLower (h : c.isLower = true) : c.toUpper.isUpper = true := by
  rw [Char.isUpper_toUpper_eq_isAlpha, Char.isAlpha, h, Bool.or_true]

theorem toLower_toUpper_of_isLower (h : c.isLower = true) : c.toUpper.toLower = c := by
  rw [Char.toLower_toUpper_eq_toLower,
    Char.toLower_eq_of_not_isUpper (Char.not_isUpper_of_isLower h)]

theorem startsWord_of_isSmall (h : isSmall c = true) (next : Option Char) :
    startsWord (some c) next = true :=
  if_pos h

end Characters

theorem exists_of_isWord {w : String} (h : isWord w = true) :
    ∃ first rest, w.toList = first :: rest ∧ first.isLower = true ∧ rest ≠ [] ∧
      ∀ c ∈ rest, isSmall c = true := by
  cases hw : w.toList with
  | nil => simp [isWord, hw] at h
  | cons first rest =>
      simp only [isWord, hw, List.head?_cons, Option.any_some, List.tail_cons, Bool.and_eq_true,
        Bool.not_eq_true', List.isEmpty_eq_false_iff, List.all_eq_true] at h
      exact ⟨first, rest, rfl, h.1.1, h.1.2, h.2⟩

theorem toList_join_cons (w : String) (rest : List String) :
    (Text.join "_" (w :: rest)).toList = w.toList ++ rest.flatMap fun v => '_' :: v.toList :=
  Text.toList_join_cons "_" w rest

/-! ## Camel case -/

/-- Within a word nothing changes. -/
theorem camelFrom_false_append {l : List Char} (h : ∀ c ∈ l, isSmall c = true) (t : List Char) :
    camelFrom false (l ++ t) = l ++ camelFrom false t := by
  induction l with
  | nil => rfl
  | cons c rest ih =>
      obtain ⟨hc, hrest⟩ := List.forall_mem_cons.mp h
      rw [List.cons_append, camelFrom, if_neg (ne_underscore_of_isSmall hc), ih hrest]
      rfl

/-- A word with its first letter raised. -/
def raised (w : String) : List Char :=
  w.toList.head?.toList.map Char.toUpper ++ w.toList.tail

theorem raised_eq {w : String} {first : Char} {rest : List Char} (h : w.toList = first :: rest) :
    raised w = first.toUpper :: rest := by
  rw [raised, h]
  rfl

theorem camelFrom_word {w : String} (h : isWord w = true) (t : List Char) :
    camelFrom true (w.toList ++ t) = raised w ++ camelFrom false t := by
  obtain ⟨first, rest, hw, hfirst, -, hrest⟩ := exists_of_isWord h
  have hne := ne_underscore_of_isSmall (isSmall_of_isLower hfirst)
  rw [raised_eq hw, hw, List.cons_append, camelFrom, if_neg hne, camelFrom_false_append hrest]
  rfl

theorem camelFrom_words {words : List String} (h : ∀ w ∈ words, isWord w = true) :
    camelFrom false (words.flatMap fun v => '_' :: v.toList) = words.flatMap raised := by
  induction words with
  | nil => rfl
  | cons w rest ih =>
      obtain ⟨hw, hrest⟩ := List.forall_mem_cons.mp h
      rw [List.flatMap_cons, List.flatMap_cons, List.cons_append, camelFrom, if_pos rfl,
        camelFrom_word hw, ih hrest]

/-- The words behind each other, each with its first letter raised. -/
theorem upperCamel_join {w : String} {rest : List String} (hw : isWord w = true)
    (hrest : ∀ v ∈ rest, isWord v = true) :
    upperCamel (Text.join "_" (w :: rest)) = String.ofList (raised w ++ rest.flatMap raised) := by
  rw [upperCamel, toList_join_cons, camelFrom_word hw, camelFrom_words hrest]

/-- The first word stays as it is. -/
theorem lowerCamel_join {w : String} {rest : List String} (hw : isWord w = true)
    (hrest : ∀ v ∈ rest, isWord v = true) :
    lowerCamel (Text.join "_" (w :: rest)) = String.ofList (w.toList ++ rest.flatMap raised) := by
  rw [lowerCamel, toList_join_cons, camelFrom_word hw, camelFrom_words hrest]
  obtain ⟨first, chars, hchars, hfirst, -, -⟩ := exists_of_isWord hw
  rw [raised_eq hchars, hchars, List.cons_append, lowerFirst, toLower_toUpper_of_isLower hfirst]
  rfl

/-! ## Snake case -/

/-- Small letters and digits stay as they are, and the next character has one of them in front. -/
theorem snakeFrom_append {l : List Char} (hne : l ≠ []) (h : ∀ c ∈ l, isSmall c = true)
    (previous : Option Char) (t : List Char) :
    snakeFrom previous (l ++ t) = l ++ snakeFrom (some (l.getLast hne)) t := by
  induction l generalizing previous with
  | nil => exact absurd rfl hne
  | cons c rest ih =>
      obtain ⟨hc, hrest⟩ := List.forall_mem_cons.mp h
      have hupper : ¬ c.isUpper = true := Bool.eq_false_iff.mp (isUpper_of_isSmall hc)
      rw [List.cons_append, snakeFrom, if_neg hupper]
      by_cases hnil : rest = []
      · subst hnil
        rfl
      · rw [ih hnil hrest, List.getLast_cons hnil]
        rfl

/-- A raised word starts where a small letter or a digit is in front of it. -/
theorem snakeFrom_raised {w : String} (hw : isWord w = true) {p : Char} (hp : isSmall p = true) :
    ∃ last, isSmall last = true ∧ ∀ t,
      snakeFrom (some p) (raised w ++ t) = '_' :: w.toList ++ snakeFrom (some last) t := by
  obtain ⟨first, rest, hchars, hfirst, hne, hrest⟩ := exists_of_isWord hw
  refine ⟨rest.getLast hne, hrest _ (List.getLast_mem hne), fun t => ?_⟩
  rw [raised_eq hchars, List.cons_append, snakeFrom, if_pos (isUpper_toUpper_of_isLower hfirst),
    if_pos (startsWord_of_isSmall hp _), snakeFrom_append hne hrest, hchars,
    toLower_toUpper_of_isLower hfirst]
  rfl

/-- The first word has no underscore in front, whether it is raised or not. -/
theorem snakeFrom_first {w : String} (hw : isWord w = true) {l : List Char}
    (hl : l = raised w ∨ l = w.toList) :
    ∃ last, isSmall last = true ∧ ∀ t,
      snakeFrom none (l ++ t) = w.toList ++ snakeFrom (some last) t := by
  obtain ⟨first, rest, hchars, hfirst, hne, hrest⟩ := exists_of_isWord hw
  refine ⟨rest.getLast hne, hrest _ (List.getLast_mem hne), fun t => ?_⟩
  rcases hl with rfl | rfl
  · rw [raised_eq hchars, List.cons_append, snakeFrom, if_pos (isUpper_toUpper_of_isLower hfirst),
      snakeFrom_append hne hrest, hchars, toLower_toUpper_of_isLower hfirst]
    rfl
  · have hsmall : ∀ c ∈ first :: rest, isSmall c = true :=
      List.forall_mem_cons.mpr ⟨isSmall_of_isLower hfirst, hrest⟩
    rw [hchars, snakeFrom_append (List.cons_ne_nil _ _) hsmall, List.getLast_cons hne]

/-- Words behind one another are told apart by their capitals. -/
theorem snakeFrom_words {words : List String} (h : ∀ w ∈ words, isWord w = true) {p : Char}
    (hp : isSmall p = true) :
    snakeFrom (some p) (words.flatMap raised) = words.flatMap fun v => '_' :: v.toList := by
  induction words generalizing p with
  | nil => rfl
  | cons w rest ih =>
      obtain ⟨hw, hrest⟩ := List.forall_mem_cons.mp h
      obtain ⟨last, hlast, hword⟩ := snakeFrom_raised hw hp
      rw [List.flatMap_cons, List.flatMap_cons, hword, ih hrest hlast]

theorem snake_words {w : String} {rest : List String} (hw : isWord w = true) (hrest : ∀ v ∈ rest, isWord v = true)
    {l : List Char} (hl : l = raised w ∨ l = w.toList) :
    snake (String.ofList (l ++ rest.flatMap raised)) = Text.join "_" (w :: rest) := by
  obtain ⟨last, hlast, hword⟩ := snakeFrom_first hw hl
  rw [snake, String.toList_ofList, hword, snakeFrom_words hrest hlast, ← toList_join_cons,
    String.ofList_toList]

theorem snake_lowerCamel {words : List String} (hne : words ≠ []) (h : ∀ w ∈ words, isWord w = true) :
    snake (lowerCamel (Text.join "_" words)) = Text.join "_" words := by
  obtain ⟨w, rest, rfl⟩ := List.exists_cons_of_ne_nil hne
  obtain ⟨hw, hrest⟩ := List.forall_mem_cons.mp h
  rw [lowerCamel_join hw hrest, snake_words hw hrest (.inr rfl)]

theorem snake_upperCamel {words : List String} (hne : words ≠ []) (h : ∀ w ∈ words, isWord w = true) :
    snake (upperCamel (Text.join "_" words)) = Text.join "_" words := by
  obtain ⟨w, rest, rfl⟩ := List.exists_cons_of_ne_nil hne
  obtain ⟨hw, hrest⟩ := List.forall_mem_cons.mp h
  rw [upperCamel_join hw hrest, snake_words hw hrest (.inl rfl)]

/-- Snake case undoes both camel cases, so different names stay different in camel case. -/
theorem snake_undoes_camel {words : List String} (hne : words ≠ []) (h : ∀ w ∈ words, isWord w = true) :
    snake (lowerCamel (Text.join "_" words)) = Text.join "_" words ∧
    snake (upperCamel (Text.join "_" words)) = Text.join "_" words ∧
    ∀ others, others ≠ [] → (∀ w ∈ others, isWord w = true) → Text.join "_" words ≠ Text.join "_" others →
      lowerCamel (Text.join "_" words) ≠ lowerCamel (Text.join "_" others) ∧
      upperCamel (Text.join "_" words) ≠ upperCamel (Text.join "_" others) := by
  refine ⟨snake_lowerCamel hne h, snake_upperCamel hne h, fun others hne' h' hdiffer => ?_⟩
  constructor
  · intro heq
    refine hdiffer ?_
    rw [← snake_lowerCamel hne h, heq, snake_lowerCamel hne' h']
  · intro heq
    refine hdiffer ?_
    rw [← snake_upperCamel hne h, heq, snake_upperCamel hne' h']

/-- A word that ends in a digit, and one with a digit inside. -/
theorem snake_undoes_camel_version :
    (∀ w ∈ ["api2", "v2x", "id"], isWord w = true) ∧ (∀ w ∈ ["api", "id"], isWord w = true) ∧
    snake (lowerCamel "api2_v2x_id") = "api2_v2x_id" ∧
    snake (upperCamel "api2_v2x_id") = "api2_v2x_id" ∧
    lowerCamel "api2_v2x_id" ≠ lowerCamel "api_id" ∧
    upperCamel "api2_v2x_id" ≠ upperCamel "api_id" := by
  have hwords : ∀ w ∈ ["api2", "v2x", "id"], isWord w = true := by decide +kernel
  have hothers : ∀ w ∈ ["api", "id"], isWord w = true := by decide +kernel
  obtain ⟨hlower, hupper, hdiffer⟩ := snake_undoes_camel (List.cons_ne_nil _ _) hwords
  exact ⟨hwords, hothers, hlower, hupper,
    hdiffer ["api", "id"] (List.cons_ne_nil _ _) hothers (by decide)⟩

-- Words of one letter run together.
example : isWord "a" = false ∧ snake (upperCamel "a_b") = "ab" := by decide +kernel

end Case
end Schematic
