import Mathlib
import Schematic.OptionBody
import Schematic.Proofs.Text.Cut

/-!
# Reading option bodies back

The text of an option body tells the body.  What a value is shows at its first character: a quote, a brace
or a bracket, or else a character of a name or a number.  A name or a number ends where a blank, a comma or
a bracket follows, a text in quotes at the first quote that is not escaped, and a message or a list where
what is written inside is over.  So a value can be told from any text that starts with its own, and that is
what the induction runs on.  Only whether a number has a sign of its own is lost.
-/

namespace Schematic
namespace OptionValue

/-! ## Plain values -/

def isNameStart (c : Char) : Bool := c.isAlpha || c == '_'

def isNameChar (c : Char) : Bool := c.isAlphanum || c == '_'

/-- A letter or an underscore, and behind it letters, digits and underscores. -/
def isName (s : String) : Bool :=
  s.toList.head?.any isNameStart && s.toList.all isNameChar

mutual

/-- There is no real in the value, its names are identifiers, and no name of an enum value reads as a truth
value. -/
def isPlain : OptionValue → Bool
  | .real _ => false
  | .ident name => isName name && name != "true" && name != "false"
  | .message fields => arePlainFields fields
  | .list items => arePlainItems items
  | _ => true

def arePlainFields : List (String × OptionValue) → Bool
  | [] => true
  | (name, value) :: rest => isName name && value.isPlain && arePlainFields rest

def arePlainItems : List OptionValue → Bool
  | [] => true
  | item :: rest => item.isPlain && arePlainItems rest

end

mutual

/-- The value with every number as one that may have a sign. -/
def signed : OptionValue → OptionValue
  | .uint n => .int n
  | .message fields => .message (signedFields fields)
  | .list items => .list (signedItems items)
  | value => value

def signedFields : List (String × OptionValue) → List (String × OptionValue)
  | [] => []
  | (name, value) :: rest => (name, value.signed) :: signedFields rest

def signedItems : List OptionValue → List OptionValue
  | [] => []
  | item :: rest => item.signed :: signedItems rest

end

/-- Induction over values, with what is known of all fields of a message and of all items of a list. -/
theorem induct {P : OptionValue → Prop} (bool : ∀ b, P (.bool b)) (int : ∀ i, P (.int i))
    (uint : ∀ n, P (.uint n)) (real : ∀ x, P (.real x)) (string : ∀ s, P (.string s))
    (ident : ∀ name, P (.ident name))
    (message : ∀ fields : List (String × OptionValue), (∀ f ∈ fields, P f.2) → P (.message fields))
    (list : ∀ items : List OptionValue, (∀ v ∈ items, P v) → P (.list items)) (v : OptionValue) :
    P v :=
  @OptionValue.rec P (fun fields => ∀ f ∈ fields, P f.2) (fun items => ∀ v ∈ items, P v)
    (fun f => P f.2) bool int uint real string ident message list (List.forall_mem_nil _)
    (fun _ _ hhead htail => List.forall_mem_cons.mpr ⟨hhead, htail⟩) (List.forall_mem_nil _)
    (fun _ _ hhead htail => List.forall_mem_cons.mpr ⟨hhead, htail⟩) (fun _ _ h => h) v

/-! ## Names and numbers -/

/-- A character of a name or a number. -/
def isBareChar (c : Char) : Bool := isNameChar c || c == '-'

/-- What follows goes on neither a name nor a number. -/
def Stops (p : Char → Bool) (r : List Char) : Prop :=
  ∀ c ∈ r.head?, p c = false

theorem stops_nil (p : Char → Bool) : Stops p [] :=
  fun _ h => by cases h

theorem stops_cons {p : Char → Bool} {c : Char} (h : p c = false) (r : List Char) :
    Stops p (c :: r) :=
  fun _ hd => Option.mem_some.mp hd ▸ h

theorem takeWhile_append {p : Char → Bool} {a r : List Char} (ha : ∀ c ∈ a, p c = true)
    (hr : Stops p r) : (a ++ r).takeWhile p = a := by
  rw [List.takeWhile_append_of_pos ha]
  cases r with
  | nil => exact List.append_nil a
  | cons c rest =>
      have hc : ¬ p c = true := Bool.eq_false_iff.mp (hr c rfl)
      rw [List.takeWhile_cons_of_neg hc, List.append_nil]

/-- Where a run of characters ends is told from the text. -/
theorem run_cancel {p : Char → Bool} {a b r s : List Char} (ha : ∀ c ∈ a, p c = true)
    (hb : ∀ c ∈ b, p c = true) (hr : Stops p r) (hs : Stops p s) (h : a ++ r = b ++ s) :
    a = b ∧ r = s := by
  have hab : a = b := by rw [← takeWhile_append ha hr, h, takeWhile_append hb hs]
  subst hab
  exact ⟨rfl, List.append_cancel_left h⟩

theorem exists_of_isName {s : String} (h : isName s = true) :
    ∃ first rest, s.toList = first :: rest ∧ isNameStart first = true ∧
      ∀ c ∈ first :: rest, isNameChar c = true := by
  cases hs : s.toList with
  | nil => simp [isName, hs] at h
  | cons first rest =>
      simp only [isName, hs, List.head?_cons, Option.any_some, Bool.and_eq_true,
        List.all_eq_true] at h
      exact ⟨first, rest, rfl, h.1, h.2⟩

theorem isBareChar_of_isName {s : String} (h : isName s = true) :
    s.toList ≠ [] ∧ ∀ c ∈ s.toList, isBareChar c = true := by
  obtain ⟨first, rest, hchars, -, hall⟩ := exists_of_isName h
  rw [hchars]
  exact ⟨List.cons_ne_nil _ _, fun c hc => by rw [isBareChar, hall c hc, Bool.true_or]⟩

theorem isBareChar_of_isDigit {c : Char} (h : c.isDigit = true) : isBareChar c = true := by
  simp [isBareChar, isNameChar, Char.isAlphanum, h]

/-- A number is a minus or nothing, and digits. -/
theorem toString_int (i : Int) :
    ∃ n : Nat, (toString i).toList = Nat.toDigits 10 n ∨
      (toString i).toList = '-' :: Nat.toDigits 10 n := by
  rw [Int.toString_eq_repr, Int.repr_eq_if]
  split
  · exact ⟨_, Or.inl (by rw [Nat.repr_eq_ofList_toDigits, String.toList_ofList])⟩
  · refine ⟨(-i).toNat, Or.inr ?_⟩
    simp only [String.toList_append, Nat.repr_eq_ofList_toDigits, String.toList_ofList]
    rfl

theorem isDigit_of_toDigits {n : Nat} : ∀ c ∈ Nat.toDigits 10 n, c.isDigit = true :=
  fun _ hc => Nat.isDigit_of_mem_toDigits (by decide) (by decide) hc

theorem isNameStart_of_isDigit {c : Char} (h : c.isDigit = true) : isNameStart c = false := by
  simp only [isNameStart, Bool.or_eq_false_iff]
  constructor
  · simp [Char.isDigit, Char.isAlpha, Char.isUpper, Char.isLower, UInt32.le_iff_toNat_le] at h ⊢
    omega
  · refine beq_false_of_ne ?_
    rintro rfl
    exact absurd h (by decide)

/-- No number is a name. -/
theorem not_isName_toString (i : Int) : isName (toString i) = false := by
  have hhead : ∀ first rest, (toString i).toList = first :: rest → isNameStart first = false := by
    intro first rest hi
    obtain ⟨n, hn | hn⟩ := toString_int i
    · exact isNameStart_of_isDigit (isDigit_of_toDigits first (by rw [← hn, hi]; exact List.mem_cons_self))
    · rw [hi, List.cons.injEq] at hn
      rw [hn.1]
      decide
  rw [← Bool.not_eq_true]
  intro h
  obtain ⟨first, rest, hi, hfirst, -⟩ := exists_of_isName h
  rw [hhead first rest hi] at hfirst
  cases hfirst

/-! ## Texts in quotes -/

/-- The character that a letter behind a backslash stands for. -/
def unescape : Char → Char
  | 'n' => '\n'
  | 'r' => '\r'
  | 't' => '\t'
  | letter => letter

/-- A character stands for itself, or behind a backslash is a letter that tells it. -/
theorem escape_cases (c : Char) :
    (escape c = [c] ∧ c ≠ '\\' ∧ c ≠ '"') ∨
      ∃ letter, escape c = ['\\', letter] ∧ unescape letter = c := by
  unfold escape
  split
  · exact Or.inr ⟨_, rfl, rfl⟩
  · exact Or.inr ⟨_, rfl, rfl⟩
  · exact Or.inr ⟨_, rfl, rfl⟩
  · exact Or.inr ⟨_, rfl, rfl⟩
  · exact Or.inr ⟨_, rfl, rfl⟩
  · rename_i hquote hbackslash _ _ _
    exact Or.inl ⟨rfl, hbackslash, hquote⟩

theorem escape_cancel {c d : Char} {x y : List Char} (h : escape c ++ x = escape d ++ y) :
    c = d ∧ x = y := by
  rcases escape_cases c with ⟨hc, hcb, -⟩ | ⟨a, hc, rfl⟩ <;>
    rcases escape_cases d with ⟨hd, hdb, -⟩ | ⟨b, hd, rfl⟩ <;>
    rw [hc, hd] at h
  · exact List.cons.inj h
  · exact absurd (List.cons.inj h).1 hcb
  · exact absurd (List.cons.inj h).1.symm hdb
  · obtain ⟨rfl, hrest⟩ := List.cons.inj (List.cons.inj h).2
    exact ⟨rfl, hrest⟩

theorem escape_ne_quote (c : Char) (x y : List Char) : escape c ++ x ≠ '"' :: y := by
  intro h
  rcases escape_cases c with ⟨hc, -, hquote⟩ | ⟨a, hc, -⟩ <;> rw [hc] at h
  · exact hquote (List.cons.inj h).1
  · exact absurd (List.cons.inj h).1 (by decide)

/-- The quote at the end is the first that is not escaped. -/
theorem quoted_cancel {a b r s : List Char}
    (h : a.flatMap escape ++ '"' :: r = b.flatMap escape ++ '"' :: s) : a = b ∧ r = s := by
  induction a generalizing b with
  | nil =>
      cases b with
      | nil => exact ⟨rfl, (List.cons.inj h).2⟩
      | cons d b =>
          rw [List.flatMap_cons, List.append_assoc] at h
          exact absurd h.symm (escape_ne_quote d _ _)
  | cons c a ih =>
      cases b with
      | nil =>
          rw [List.flatMap_cons, List.append_assoc] at h
          exact absurd h (escape_ne_quote c _ _)
      | cons d b =>
          rw [List.flatMap_cons, List.flatMap_cons, List.append_assoc, List.append_assoc] at h
          obtain ⟨rfl, hrest⟩ := escape_cancel h
          obtain ⟨rfl, hrs⟩ := ih hrest
          exact ⟨rfl, hrs⟩

/-! ## Pieces of texts -/

/-- Fields as they stand behind one another, each behind a blank. -/
def fieldChars (fields : List (String × OptionValue)) : List Char :=
  fields.flatMap fun f => ' ' :: (f.1.toList ++ (f.2.separator.toList ++ f.2.text.toList))

/-- Items as they stand behind one another, each behind a comma. -/
def itemChars (items : List OptionValue) : List Char :=
  items.flatMap fun v => ',' :: ' ' :: v.text.toList

theorem fieldTexts_eq_map (fields : List (String × OptionValue)) :
    fieldTexts fields = fields.map fun f => f.1 ++ f.2.separator ++ f.2.text := by
  induction fields with
  | nil => rfl
  | cons f rest ih =>
      rw [List.map_cons, ← ih]
      rfl

theorem itemTexts_eq_map (items : List OptionValue) : itemTexts items = items.map text := by
  induction items with
  | nil => rfl
  | cons v rest ih =>
      rw [List.map_cons, ← ih]
      rfl

theorem toList_join_fieldTexts (f : String × OptionValue) (fields : List (String × OptionValue)) :
    ' ' :: (Text.join " " (fieldTexts (f :: fields))).toList = fieldChars (f :: fields) := by
  rw [fieldTexts_eq_map, List.map_cons, Text.toList_join_cons, List.flatMap_map, fieldChars,
    List.flatMap_cons]
  simp only [String.toList_append, List.append_assoc, List.cons_append]
  rfl

theorem toList_join_itemTexts (v : OptionValue) (items : List OptionValue) :
    (Text.join ", " (itemTexts (v :: items))).toList = v.text.toList ++ itemChars items := by
  rw [itemTexts_eq_map, List.map_cons, Text.toList_join_cons, List.flatMap_map]
  rfl

theorem toList_text_string (s : String) :
    (text (.string s)).toList = '"' :: (s.toList.flatMap escape ++ ['"']) := by
  show (quote s).toList = _
  rw [quote, String.toList_ofList]
  rfl

theorem toList_text_message_nil : (text (.message [])).toList = ['\x7b', '\x7d'] := by
  show "\x7b\x7d".toList = _
  rfl

theorem toList_text_message_cons (f : String × OptionValue) (fields : List (String × OptionValue)) :
    (text (.message (f :: fields))).toList = '\x7b' :: (fieldChars (f :: fields) ++ [' ', '\x7d']) := by
  show ("\x7b " ++ Text.join " " (fieldTexts (f :: fields)) ++ " \x7d").toList = _
  rw [← toList_join_fieldTexts]
  simp only [String.toList_append]
  rfl

theorem toList_text_list_nil : (text (.list [])).toList = ['[', ']'] := by
  show ("[" ++ "" ++ "]").toList = _
  rfl

theorem toList_text_list_cons (v : OptionValue) (items : List OptionValue) :
    (text (.list (v :: items))).toList = '[' :: (v.text.toList ++ (itemChars items ++ [']'])) := by
  show ("[" ++ Text.join ", " (itemTexts (v :: items)) ++ "]").toList = _
  rw [String.toList_append, String.toList_append, toList_join_itemTexts, List.append_assoc,
    List.append_assoc]
  rfl

theorem arePlainFields_cons {f : String × OptionValue} {fields : List (String × OptionValue)} :
    arePlainFields (f :: fields) = true ↔
      isName f.1 = true ∧ f.2.isPlain = true ∧ arePlainFields fields = true := by
  show (isName f.1 && f.2.isPlain && arePlainFields fields) = true ↔ _
  rw [Bool.and_eq_true, Bool.and_eq_true, and_assoc]

theorem arePlainItems_cons {v : OptionValue} {items : List OptionValue} :
    arePlainItems (v :: items) = true ↔ v.isPlain = true ∧ arePlainItems items = true := by
  show (v.isPlain && arePlainItems items) = true ↔ _
  rw [Bool.and_eq_true]

/-! ## What a value is -/

/-- How the text of a value opens, if it is neither a name nor a number. -/
def opening : OptionValue → Option Char
  | .string _ => some '"'
  | .message _ => some '\x7b'
  | .list _ => some '['
  | _ => none

theorem isName_text_bool (b : Bool) : isName (text (.bool b)) = true := by
  cases b with
  | false =>
      show isName "false" = true
      decide +kernel
  | true =>
      show isName "true" = true
      decide +kernel

/-- A truth value, a number or a name. -/
theorem bare_cases {v : OptionValue} (hv : v.isPlain = true) (hopen : opening v = none) :
    (∃ b, v = .bool b) ∨ (∃ i, v.signed = .int i ∧ v.text = toString i) ∨
      ∃ name, v = .ident name ∧ isName name = true ∧ name ≠ "true" ∧ name ≠ "false" := by
  cases v with
  | bool b => exact Or.inl ⟨b, rfl⟩
  | int i => exact Or.inr (Or.inl ⟨i, rfl, rfl⟩)
  | uint n => exact Or.inr (Or.inl ⟨n, rfl, rfl⟩)
  | ident name =>
      change (isName name && name != "true" && name != "false") = true at hv
      rw [Bool.and_eq_true, Bool.and_eq_true, bne_iff_ne, bne_iff_ne] at hv
      exact Or.inr (Or.inr ⟨name, rfl, hv.1.1, hv.1.2, hv.2⟩)
  | real x => exact absurd hv Bool.false_ne_true
  | string s => cases hopen
  | message fields => cases hopen
  | list items => cases hopen

/-- A truth value, a number or a name is made of its characters alone. -/
theorem isBareChar_of_bare {v : OptionValue} (hv : v.isPlain = true) (hopen : opening v = none) :
    v.text.toList ≠ [] ∧ ∀ c ∈ v.text.toList, isBareChar c = true := by
  rcases bare_cases hv hopen with ⟨b, rfl⟩ | ⟨i, -, hi⟩ | ⟨name, rfl, hname, -, -⟩
  · exact isBareChar_of_isName (isName_text_bool b)
  · rw [hi]
    have hdigits : ∀ n c, c ∈ Nat.toDigits 10 n → isBareChar c = true :=
      fun n c hc => isBareChar_of_isDigit (isDigit_of_toDigits c hc)
    obtain ⟨n, hn | hn⟩ := toString_int i
    · exact hn ▸ ⟨Nat.toDigits_ne_nil, hdigits n⟩
    · exact hn ▸ ⟨List.cons_ne_nil _ _, List.forall_mem_cons.mpr ⟨by decide, hdigits n⟩⟩
  · exact isBareChar_of_isName hname

/-- The first character tells how a value opens. -/
theorem head?_text {v : OptionValue} (hv : v.isPlain = true) (r : List Char) :
    ∃ c, (v.text.toList ++ r).head? = some c ∧
      opening v = if isBareChar c then none else some c := by
  cases hopen : opening v with
  | none =>
      obtain ⟨hne, hall⟩ := isBareChar_of_bare hv hopen
      obtain ⟨c, rest, hchars⟩ := List.exists_cons_of_ne_nil hne
      rw [hchars] at hall ⊢
      exact ⟨c, rfl, by rw [if_pos (hall c List.mem_cons_self)]⟩
  | some c =>
      refine ⟨c, ?_, ?_⟩
      · cases v with
        | string s => rw [toList_text_string]; exact hopen
        | message fields =>
            cases fields with
            | nil => rw [toList_text_message_nil]; exact hopen
            | cons f fields => rw [toList_text_message_cons]; exact hopen
        | list items =>
            cases items with
            | nil => rw [toList_text_list_nil]; exact hopen
            | cons v items => rw [toList_text_list_cons]; exact hopen
        | _ => cases hopen
      · have hc : isBareChar c = false := by
          cases v <;> cases hopen <;> decide
        rw [hc]
        rfl

theorem opening_eq {v w : OptionValue} (hv : v.isPlain = true) (hw : w.isPlain = true)
    {r s : List Char} (h : v.text.toList ++ r = w.text.toList ++ s) : opening v = opening w := by
  obtain ⟨c, hc, hopenv⟩ := head?_text hv r
  obtain ⟨d, hd, hopenw⟩ := head?_text hw s
  rw [h, hd, Option.some.injEq] at hc
  rw [hopenv, hopenw, hc]

/-- Truth values, numbers and names are told by their texts. -/
theorem signed_eq_of_bare {v w : OptionValue} (hv : v.isPlain = true) (hw : w.isPlain = true)
    (hopenv : opening v = none) (hopenw : opening w = none) (h : v.text = w.text) :
    v.signed = w.signed := by
  have htrue : ∀ (b : Bool) (i : Int), text (.bool b) ≠ toString i := by
    intro b i heq
    have hname := isName_text_bool b
    rw [heq, not_isName_toString] at hname
    cases hname
  have hident : ∀ (b : Bool) (name : String), name ≠ "true" → name ≠ "false" →
      text (.bool b) ≠ name := by
    intro b name ht hf heq
    cases b with
    | false => exact hf heq.symm
    | true => exact ht heq.symm
  rcases bare_cases hv hopenv with ⟨b, rfl⟩ | ⟨i, hi, hti⟩ | ⟨name, rfl, hname, ht, hf⟩ <;>
    rcases bare_cases hw hopenw with ⟨b', rfl⟩ | ⟨j, hj, htj⟩ | ⟨name', rfl, hname', ht', hf'⟩
  · have hdistinct : "false" ≠ "true" := by decide
    cases b <;> cases b'
    · rfl
    · exact absurd h hdistinct
    · exact absurd h.symm hdistinct
    · rfl
  · exact absurd (h.trans htj) (htrue b j)
  · exact absurd h (hident b name' ht' hf')
  · exact absurd (h.symm.trans hti) (htrue b' i)
  · rw [hti, htj, Int.toString_eq_repr, Int.toString_eq_repr, Int.repr_inj] at h
    rw [hi, hj, h]
  · change _ = name' at h
    rw [← h, hti, not_isName_toString] at hname'
    cases hname'
  · exact absurd h.symm (hident b' name ht hf)
  · change name = _ at h
    rw [h, htj, not_isName_toString] at hname
    cases hname
  · change name = name' at h
    rw [h]

/-! ## Fields and items -/

/-- A value is told from any text that starts with its own, if what follows goes on neither a name nor a
number. -/
def Cancels (v : OptionValue) : Prop :=
  ∀ (w : OptionValue) (r s : List Char), v.isPlain = true → w.isPlain = true →
    Stops isBareChar r → Stops isBareChar s → v.text.toList ++ r = w.text.toList ++ s → v.signed = w.signed ∧ r = s

/-- Fields end with the text, or before a closing brace. -/
def Closes (r : List Char) : Prop :=
  r = [] ∨ ∃ t, r = ' ' :: '\x7d' :: t

theorem separator_cases (v : OptionValue) :
    v.separator.toList = [' '] ∨ v.separator.toList = [':', ' '] := by
  cases v with
  | message fields => exact Or.inl (show " ".toList = [' '] by rfl)
  | _ => exact Or.inr (show ": ".toList = [':', ' '] by rfl)

theorem stops_separator (v : OptionValue) (x : List Char) :
    Stops isNameChar (v.separator.toList ++ x) := by
  rcases separator_cases v with h | h <;> rw [h] <;> exact stops_cons (by decide) _

theorem separator_cancel {v w : OptionValue} {x y : List Char}
    (h : v.separator.toList ++ x = w.separator.toList ++ y) : x = y := by
  rcases separator_cases v with hv | hv <;> rcases separator_cases w with hw | hw <;>
    rw [hv, hw] at h
  · exact (List.cons.inj h).2
  · exact absurd (List.cons.inj h).1 (by decide)
  · exact absurd (List.cons.inj h).1 (by decide)
  · exact (List.cons.inj (List.cons.inj h).2).2

theorem fieldChars_cons_append (f : String × OptionValue) (fields : List (String × OptionValue))
    (r : List Char) :
    fieldChars (f :: fields) ++ r =
      ' ' :: (f.1.toList ++ (f.2.separator.toList ++ (f.2.text.toList ++ (fieldChars fields ++ r)))) := by
  simp only [fieldChars, List.flatMap_cons, List.cons_append, List.append_assoc]

theorem itemChars_cons_append (v : OptionValue) (items : List OptionValue) (r : List Char) :
    itemChars (v :: items) ++ r = ',' :: ' ' :: (v.text.toList ++ (itemChars items ++ r)) := by
  simp only [itemChars, List.flatMap_cons, List.cons_append, List.append_assoc]

theorem stops_fieldChars (fields : List (String × OptionValue)) {r : List Char} (hr : Closes r) :
    Stops isBareChar (fieldChars fields ++ r) := by
  cases fields with
  | nil =>
      rcases hr with rfl | ⟨t, rfl⟩
      · exact stops_nil _
      · exact stops_cons (by decide) _
  | cons f fields =>
      rw [fieldChars_cons_append]
      exact stops_cons (by decide) _

theorem stops_itemChars (items : List OptionValue) (r : List Char) :
    Stops isBareChar (itemChars items ++ ']' :: r) := by
  cases items with
  | nil => exact stops_cons (by decide) _
  | cons v items =>
      rw [itemChars_cons_append]
      exact stops_cons (by decide) _

/-- Where a field starts, the fields are not over. -/
theorem fieldChars_cons_ne {f : String × OptionValue} {fields : List (String × OptionValue)}
    (hf : isName f.1 = true) {r : List Char} (hr : Closes r) (s : List Char) :
    fieldChars (f :: fields) ++ s ≠ r := by
  obtain ⟨first, rest, hname, -, hall⟩ := exists_of_isName hf
  rw [fieldChars_cons_append, hname]
  rcases hr with rfl | ⟨t, rfl⟩
  · exact List.cons_ne_nil _ _
  · intro h
    have hfirst := (List.cons.inj (List.cons.inj h).2).1
    exact absurd (hall first List.mem_cons_self) (by rw [hfirst]; decide)

theorem fields_cancel {fields others : List (String × OptionValue)}
    (ih : ∀ f ∈ fields, Cancels f.2) {r s : List Char} (hfields : arePlainFields fields = true)
    (hothers : arePlainFields others = true) (hr : Closes r) (hs : Closes s)
    (h : fieldChars fields ++ r = fieldChars others ++ s) :
    signedFields fields = signedFields others ∧ r = s := by
  induction fields generalizing others with
  | nil =>
      cases others with
      | nil => exact ⟨rfl, h⟩
      | cons g others =>
          exact absurd h.symm (fieldChars_cons_ne (arePlainFields_cons.mp hothers).1 hr s)
  | cons f fields ihfields =>
      obtain ⟨hname, hvalue, hfields⟩ := arePlainFields_cons.mp hfields
      cases others with
      | nil => exact absurd h (fieldChars_cons_ne hname hs r)
      | cons g others =>
          obtain ⟨hname', hvalue', hothers⟩ := arePlainFields_cons.mp hothers
          rw [fieldChars_cons_append, fieldChars_cons_append] at h
          -- The name, what stands between, the value, and then the other fields.
          obtain ⟨_, _, hchars, -, hall⟩ := exists_of_isName hname
          obtain ⟨_, _, hchars', -, hall'⟩ := exists_of_isName hname'
          obtain ⟨hnames, hrest⟩ := run_cancel (hchars ▸ hall) (hchars' ▸ hall')
            (stops_separator f.2 _) (stops_separator g.2 _) (List.cons.inj h).2
          obtain ⟨hvalues, hrest⟩ := ih f List.mem_cons_self g.2 _ _ hvalue hvalue'
            (stops_fieldChars fields hr) (stops_fieldChars others hs) (separator_cancel hrest)
          obtain ⟨htail, hrs⟩ := ihfields (fun f' hf' => ih f' (List.mem_cons_of_mem f hf'))
            hfields hothers hrest
          show (f.1, f.2.signed) :: signedFields fields = (g.1, g.2.signed) :: signedFields others ∧ _
          rw [String.toList_inj.mp hnames, hvalues, htail]
          exact ⟨rfl, hrs⟩

theorem items_cancel {items others : List OptionValue} (ih : ∀ v ∈ items, Cancels v)
    {r s : List Char} (hitems : arePlainItems items = true) (hothers : arePlainItems others = true)
    (h : itemChars items ++ ']' :: r = itemChars others ++ ']' :: s) :
    signedItems items = signedItems others ∧ r = s := by
  induction items generalizing others with
  | nil =>
      cases others with
      | nil => exact ⟨rfl, (List.cons.inj h).2⟩
      | cons w others =>
          rw [itemChars_cons_append] at h
          exact absurd (List.cons.inj h).1 (by decide)
  | cons v items ihitems =>
      obtain ⟨hv, hitems⟩ := arePlainItems_cons.mp hitems
      cases others with
      | nil =>
          rw [itemChars_cons_append] at h
          exact absurd (List.cons.inj h).1 (by decide)
      | cons w others =>
          obtain ⟨hw, hothers⟩ := arePlainItems_cons.mp hothers
          rw [itemChars_cons_append, itemChars_cons_append] at h
          obtain ⟨hvalues, hrest⟩ := ih v List.mem_cons_self w _ _ hv hw (stops_itemChars items r)
            (stops_itemChars others s) (List.cons.inj (List.cons.inj h).2).2
          obtain ⟨htail, hrs⟩ := ihitems (fun v' hv' => ih v' (List.mem_cons_of_mem v hv'))
            hitems hothers hrest
          show v.signed :: signedItems items = w.signed :: signedItems others ∧ _
          rw [hvalues, htail]
          exact ⟨rfl, hrs⟩

/-! ## Values -/

theorem cancels_of_bare {v : OptionValue} (hopen : opening v = none) : Cancels v := by
  intro w r s hv hw hr hs h
  have hopen' : opening w = none := (opening_eq hv hw h).symm.trans hopen
  obtain ⟨htexts, hrs⟩ := run_cancel (isBareChar_of_bare hv hopen).2
    (isBareChar_of_bare hw hopen').2 hr hs h
  exact ⟨signed_eq_of_bare hv hw hopen hopen' (String.toList_inj.mp htexts), hrs⟩

theorem cancels_string (a : String) : Cancels (.string a) := by
  intro w r s hv hw _ _ h
  have hopen := opening_eq hv hw h
  cases w with
  | string b =>
      rw [toList_text_string, toList_text_string] at h
      simp only [List.cons_append, List.append_assoc, List.nil_append] at h
      obtain ⟨hab, hrs⟩ := quoted_cancel (List.cons.inj h).2
      rw [String.toList_inj.mp hab]
      exact ⟨rfl, hrs⟩
  | _ => exact absurd hopen (by simp [opening])

theorem cancels_message {fields : List (String × OptionValue)} (ih : ∀ f ∈ fields, Cancels f.2) :
    Cancels (.message fields) := by
  intro w r s hv hw _ _ h
  have hopen := opening_eq hv hw h
  cases w with
  | message others =>
      show message (signedFields fields) = message (signedFields others) ∧ _
      cases fields with
      | nil =>
          cases others with
          | nil =>
              rw [toList_text_message_nil] at h
              exact ⟨rfl, List.append_cancel_left h⟩
          | cons g others =>
              rw [toList_text_message_nil, toList_text_message_cons] at h
              exact absurd (List.cons.inj (List.cons.inj h).2).1 (by decide)
      | cons f fields =>
          cases others with
          | nil =>
              rw [toList_text_message_nil, toList_text_message_cons] at h
              exact absurd (List.cons.inj (List.cons.inj h).2).1 (by decide)
          | cons g others =>
              rw [toList_text_message_cons, toList_text_message_cons, List.cons_append,
                List.cons_append, List.append_assoc, List.append_assoc] at h
              obtain ⟨hfields, hrs⟩ := fields_cancel ih hv hw (.inr ⟨r, rfl⟩) (.inr ⟨s, rfl⟩)
                (List.cons.inj h).2
              rw [hfields]
              exact ⟨rfl, (List.cons.inj (List.cons.inj hrs).2).2⟩
  | _ => exact absurd hopen (by simp [opening])

/-- Where a list is over, no item starts. -/
theorem text_ne_bracket {v : OptionValue} (hv : v.isPlain = true) (x y : List Char) :
    v.text.toList ++ x ≠ ']' :: y := by
  intro h
  obtain ⟨c, hc, hopen⟩ := head?_text hv x
  rw [h, List.head?_cons, Option.some.injEq] at hc
  have hbracket : isBareChar ']' = false := by decide
  rw [← hc, hbracket] at hopen
  cases v <;> simp [opening] at hopen

theorem cancels_list {items : List OptionValue} (ih : ∀ v ∈ items, Cancels v) :
    Cancels (.list items) := by
  intro w r s hv hw _ _ h
  have hopen := opening_eq hv hw h
  cases w with
  | list others =>
      change arePlainItems _ = true at hv hw
      show list (signedItems items) = list (signedItems others) ∧ _
      cases items with
      | nil =>
          cases others with
          | nil =>
              rw [toList_text_list_nil] at h
              exact ⟨rfl, List.append_cancel_left h⟩
          | cons w others =>
              rw [toList_text_list_nil, toList_text_list_cons] at h
              simp only [List.cons_append, List.append_assoc] at h
              exact absurd (List.cons.inj h).2.symm (text_ne_bracket (arePlainItems_cons.mp hw).1 _ _)
      | cons v items =>
          cases others with
          | nil =>
              rw [toList_text_list_nil, toList_text_list_cons] at h
              simp only [List.cons_append, List.append_assoc] at h
              exact absurd (List.cons.inj h).2 (text_ne_bracket (arePlainItems_cons.mp hv).1 _ _)
          | cons w others =>
              rw [toList_text_list_cons, toList_text_list_cons] at h
              simp only [List.cons_append, List.append_assoc, List.nil_append] at h
              -- With a comma in front, the first item is like the others.
              have hitems : itemChars (v :: items) ++ ']' :: r = itemChars (w :: others) ++ ']' :: s := by
                rw [itemChars_cons_append, itemChars_cons_append, (List.cons.inj h).2]
              obtain ⟨hsigned, hrs⟩ := items_cancel ih hv hw hitems
              rw [hsigned]
              exact ⟨rfl, hrs⟩
  | _ => exact absurd hopen (by simp [opening])

theorem cancels (v : OptionValue) : Cancels v := by
  induction v using induct with
  | bool b => exact cancels_of_bare rfl
  | int i => exact cancels_of_bare rfl
  | uint n => exact cancels_of_bare rfl
  | real x => exact cancels_of_bare rfl
  | ident name => exact cancels_of_bare rfl
  | string a => exact cancels_string a
  | message fields ih => exact cancels_message ih
  | list items ih => exact cancels_list ih

/-! ## Numbers with a sign of their own -/

theorem separator_signed (v : OptionValue) : v.signed.separator = v.separator := by
  cases v <;> rfl

theorem fieldTexts_signedFields {fields : List (String × OptionValue)}
    (h : ∀ f ∈ fields, f.2.signed.text = f.2.text) :
    fieldTexts (signedFields fields) = fieldTexts fields := by
  induction fields with
  | nil => rfl
  | cons f rest ih =>
      obtain ⟨hf, hrest⟩ := List.forall_mem_cons.mp h
      show (f.1 ++ f.2.signed.separator ++ f.2.signed.text) :: fieldTexts (signedFields rest) =
        (f.1 ++ f.2.separator ++ f.2.text) :: fieldTexts rest
      rw [separator_signed, hf, ih hrest]

theorem itemTexts_signedItems {items : List OptionValue} (h : ∀ v ∈ items, v.signed.text = v.text) :
    itemTexts (signedItems items) = itemTexts items := by
  induction items with
  | nil => rfl
  | cons v rest ih =>
      obtain ⟨hv, hrest⟩ := List.forall_mem_cons.mp h
      show v.signed.text :: itemTexts (signedItems rest) = v.text :: itemTexts rest
      rw [hv, ih hrest]

/-- A number is written alike whether it may have a sign or not. -/
theorem text_signed (v : OptionValue) : v.signed.text = v.text := by
  induction v using induct with
  | message fields ih =>
      have htexts := fieldTexts_signedFields ih
      cases fields with
      | nil => rfl
      | cons f rest =>
          show "\x7b " ++ Text.join " " (fieldTexts (signedFields (f :: rest))) ++ " \x7d" = _
          rw [htexts]
          rfl
  | list items ih =>
      show "[" ++ Text.join ", " (itemTexts (signedItems items)) ++ "]" = _
      rw [itemTexts_signedItems ih]
      rfl
  | _ => rfl

end OptionValue

/-! ## Bodies -/

namespace OptionBody

open OptionValue

def isPlain (body : OptionBody) : Bool := arePlainFields body

def signed (body : OptionBody) : OptionBody := signedFields body

theorem fieldChars_eq_of_text_eq {a b : OptionBody} (ha : a.isPlain = true) (hb : b.isPlain = true)
    (h : a.text = b.text) : fieldChars a = fieldChars b := by
  have hchars : ∀ f (fields : OptionBody), fieldChars (f :: fields) = ' ' :: (text (f :: fields)).toList :=
    fun f fields => (toList_join_fieldTexts f fields).symm
  have hempty : ∀ f (fields : OptionBody), isPlain (f :: fields) = true → text (f :: fields) ≠ "" := by
    intro f fields hplain heq
    have hclosed := hchars f fields
    rw [heq] at hclosed
    have hname := (arePlainFields_cons.mp hplain).1
    obtain ⟨first, rest, hfirst, -, -⟩ := exists_of_isName hname
    rw [← List.append_nil (fieldChars _), fieldChars_cons_append, hfirst] at hclosed
    exact absurd (List.cons.inj hclosed).2 (List.cons_ne_nil _ _)
  cases a with
  | nil =>
      cases b with
      | nil => rfl
      | cons g gs => exact absurd h.symm (hempty g gs hb)
  | cons f fs =>
      cases b with
      | nil => exact absurd h (hempty f fs ha)
      | cons g gs => rw [hchars, hchars, h]

/-- Two bodies have one text exactly if they are one body, up to numbers that might have a sign. -/
theorem text_eq_text_iff {a b : OptionBody} (ha : a.isPlain = true) (hb : b.isPlain = true) :
    a.text = b.text ↔ a.signed = b.signed := by
  constructor
  · intro h
    have hchars : fieldChars a ++ [] = fieldChars b ++ [] := by
      rw [fieldChars_eq_of_text_eq ha hb h]
    exact (fields_cancel (fun f _ => cancels f.2) ha hb (.inl rfl) (.inl rfl) hchars).1
  · intro h
    have hsigned : ∀ body : OptionBody, text body.signed = body.text := fun body =>
      congrArg (Text.join " ") (fieldTexts_signedFields fun f _ => text_signed f.2)
    rw [← hsigned a, h, hsigned b]

/-- A list, an empty message, and a string of characters that have a meaning outside of quotes. -/
def tangle (first : OptionValue) : OptionBody :=
  [("in", .list [first, .string "a\", \\\x7b b: 1 \x7d\n"]), ("any", .message []),
    ("of", .message [("status", .ident "TRUE")])]

theorem text_eq_text_iff_tangle :
    isPlain (tangle (.uint 1)) = true ∧ isPlain (tangle (.int 1)) = true ∧
    isPlain (tangle (.string "1")) = true ∧
    (tangle (.uint 1)).text = (tangle (.int 1)).text ∧
    (tangle (.uint 1)).text ≠ (tangle (.string "1")).text := by
  have huint : isPlain (tangle (.uint 1)) = true := by decide +kernel
  have hint : isPlain (tangle (.int 1)) = true := by decide +kernel
  have hstring : isPlain (tangle (.string "1")) = true := by decide +kernel
  refine ⟨huint, hint, hstring, (text_eq_text_iff huint hint).mpr rfl, fun h => ?_⟩
  have hsigned := (text_eq_text_iff huint hstring).mp h
  simp [tangle, signed, signedFields, OptionValue.signed, signedItems] at hsigned

end OptionBody
end Schematic
