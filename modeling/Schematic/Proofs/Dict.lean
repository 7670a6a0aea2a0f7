import Schematic.Dict
import Mathlib.Data.List.Nodup

/-!
# What a dictionary holds

A value put under a name is found under it, and nothing else changes.
-/

namespace Schematic
namespace Sorted

variable {α : Type}

/-- What is in a list that ascends decides the list. -/
theorem eq_of_mem_iff {r : α → α → Prop} (hasymm : ∀ a b, r a b → ¬ r b a) {l l' : List α}
    (h : l.Pairwise r) (h' : l'.Pairwise r) (hmem : ∀ a, a ∈ l ↔ a ∈ l') : l = l' := by
  have hnodup : ∀ {l : List α}, l.Pairwise r → l.Nodup := fun hl =>
    List.Pairwise.imp (fun {a b} (hab : r a b) (heq : a = b) =>
      hasymm b b (heq ▸ hab) (heq ▸ hab)) hl
  have hperm : l.Perm l' := (List.perm_ext_iff_of_nodup (hnodup h) (hnodup h')).mpr hmem
  exact hperm.eq_of_pairwise (fun a b _ _ hab hba => absurd hba (hasymm a b hab)) h h'

theorem mem_of_mem_insert {lt : α → α → Bool} {a x : α} {l : List α} (h : x ∈ insert lt a l) :
    x = a ∨ x ∈ l := by
  induction l with
  | nil => simpa [insert] using h
  | cons b rest ih =>
      simp only [insert] at h
      split at h
      · simpa using h
      · split at h
        · rcases List.mem_cons.mp h with rfl | h
          · exact Or.inr List.mem_cons_self
          · exact (ih h).imp id (List.mem_cons_of_mem b)
        · exact Or.inr h

theorem mem_of_mem_ofList {lt : α → α → Bool} {x : α} {items : List α}
    (h : x ∈ ofList lt items) : x ∈ items := by
  have hfold : ∀ sorted : List α,
      x ∈ items.foldl (fun sorted a => insert lt a sorted) sorted → x ∈ items ∨ x ∈ sorted := by
    clear h
    induction items with
    | nil => exact fun _ h => Or.inr h
    | cons a rest ih =>
        intro sorted h
        rcases ih _ h with h | h
        · exact Or.inl (List.mem_cons_of_mem a h)
        · rcases mem_of_mem_insert h with rfl | h
          · exact Or.inl List.mem_cons_self
          · exact Or.inr h
  exact (hfold [] h).resolve_right List.not_mem_nil

theorem mem_insert_of_mem {lt : α → α → Bool} {a x : α} {l : List α} (h : x ∈ l) :
    x ∈ insert lt a l := by
  induction l with
  | nil => cases h
  | cons b rest ih =>
      simp only [insert]
      split
      · exact List.mem_cons_of_mem a h
      · split
        · rcases List.mem_cons.mp h with rfl | h
          · exact List.mem_cons_self
          · exact List.mem_cons_of_mem b (ih h)
        · exact h

/-- A value is put in its place, or one that counts as equal is there already. -/
theorem exists_mem_insert (lt : α → α → Bool) (a : α) (l : List α) :
    ∃ b ∈ insert lt a l, b = a ∨ (lt a b = false ∧ lt b a = false) := by
  induction l with
  | nil => exact ⟨a, List.mem_cons_self, Or.inl rfl⟩
  | cons b rest ih =>
      simp only [insert]
      split
      · exact ⟨a, List.mem_cons_self, Or.inl rfl⟩
      · rename_i hlt
        split
        · obtain ⟨x, hx, heq⟩ := ih
          exact ⟨x, List.mem_cons_of_mem b hx, heq⟩
        · rename_i hgt
          exact ⟨b, List.mem_cons_self, Or.inr ⟨by simpa using hlt, by simpa using hgt⟩⟩

/-- Every item is in the sorted list, or one that counts as equal. -/
theorem exists_mem_ofList {lt : α → α → Bool} {x : α} {items : List α} (h : x ∈ items) :
    ∃ y ∈ ofList lt items, y = x ∨ (lt x y = false ∧ lt y x = false) := by
  have hkeeps : ∀ (l sorted : List α) (y : α), y ∈ sorted →
      y ∈ l.foldl (fun sorted a => insert lt a sorted) sorted := by
    intro l
    induction l with
    | nil => exact fun _ _ hy => hy
    | cons a rest ih => exact fun sorted y hy => ih _ y (mem_insert_of_mem hy)
  obtain ⟨before, after, rfl⟩ := List.append_of_mem h
  obtain ⟨y, hy, heq⟩ := exists_mem_insert lt x (ofList lt before)
  refine ⟨y, ?_, heq⟩
  rw [ofList, List.foldl_append, List.foldl_cons]
  exact hkeeps after _ y hy

end Sorted

namespace Dict

variable {β : Type}

theorem lookup_insertEntry (key k : String) (value : β) (entries : List (String × β)) :
    (insertEntry key value entries).lookup k =
      if k = key then some value else entries.lookup k := by
  induction entries with
  | nil =>
      by_cases h : k = key
      · simp [insertEntry, h]
      · simp [insertEntry, h, List.lookup_cons, beq_false_of_ne h]
  | cons entry rest ih =>
      obtain ⟨k', v⟩ := entry
      simp only [insertEntry]
      split
      · by_cases h : k = key
        · simp [h]
        · simp [h, List.lookup_cons, beq_false_of_ne h]
      · split
        · rename_i _ heq
          subst heq
          by_cases h : k = key
          · simp [h]
          · simp [h, List.lookup_cons, beq_false_of_ne h]
        · rename_i _ hne
          rw [List.lookup_cons, List.lookup_cons, ih]
          by_cases h : k = k'
          · subst h
            simp [Ne.symm hne]
          · simp [beq_false_of_ne h]

@[simp]
theorem get?_insert (d : Dict β) (key k : String) (value : β) :
    (d.insert key value).get? k = if k = key then some value else d.get? k :=
  lookup_insertEntry key k value d.entries

theorem contains_iff {d : Dict β} {key : String} :
    d.contains key = true ↔ ∃ value, d.get? key = some value := by
  rw [contains, Option.isSome_iff_exists]

theorem mem_entries {d : Dict β} {key : String} {value : β} (h : d.get? key = some value) :
    (key, value) ∈ d.entries := by
  obtain ⟨before, after, heq, -⟩ := List.lookup_eq_some_iff.mp h
  rw [heq]
  simp

theorem mem_keys {d : Dict β} {key : String} (h : d.contains key = true) : key ∈ d.keys := by
  obtain ⟨value, hv⟩ := contains_iff.mp h
  exact List.mem_map.mpr ⟨_, mem_entries hv, rfl⟩

/-- Of several values put under one name the last counts. -/
theorem get?_insertAll (d : Dict β) (l : List (String × β)) (k : String) :
    (d.insertAll l).get? k = (l.reverse.lookup k).or (d.get? k) := by
  induction l generalizing d with
  | nil => rfl
  | cons entry rest ih =>
      obtain ⟨key, value⟩ := entry
      have hstep : d.insertAll ((key, value) :: rest) = (d.insert key value).insertAll rest := rfl
      rw [hstep, ih, get?_insert, List.reverse_cons, List.lookup_append, Option.or_assoc]
      congr 1
      by_cases hk : k = key
      · simp [hk]
      · simp [hk, List.lookup_cons, beq_false_of_ne hk]

theorem mem_of_mem_insertEntry {key : String} {value : β} {entry : String × β}
    {entries : List (String × β)} (h : entry ∈ insertEntry key value entries) :
    entry = (key, value) ∨ entry ∈ entries := by
  induction entries with
  | nil => exact Or.inl (List.mem_singleton.mp h)
  | cons first rest ih =>
      simp only [insertEntry] at h
      split at h
      · exact List.mem_cons.mp h
      · split at h
        · exact (List.mem_cons.mp h).imp_right (List.mem_cons_of_mem first)
        · rcases List.mem_cons.mp h with rfl | h
          · exact Or.inr List.mem_cons_self
          · exact (ih h).imp_right (List.mem_cons_of_mem first)

/-- A dictionary holds nothing that was not put in. -/
theorem mem_of_mem_ofList {l : List (String × β)} {entry : String × β}
    (h : entry ∈ (ofList l).entries) : entry ∈ l := by
  have hfold : ∀ d : Dict β, entry ∈ (d.insertAll l).entries → entry ∈ l ∨ entry ∈ d.entries := by
    clear h
    induction l with
    | nil => exact fun _ h => Or.inr h
    | cons first rest ih =>
        intro d h
        rcases ih (d.insert first.1 first.2) h with h | h
        · exact Or.inl (List.mem_cons_of_mem first h)
        · rcases mem_of_mem_insertEntry h with rfl | h
          · exact Or.inl List.mem_cons_self
          · exact Or.inr h
  exact (hfold {} h).resolve_right List.not_mem_nil

theorem mem_of_get?_ofList {l : List (String × β)} {key : String} {value : β}
    (h : (ofList l).get? key = some value) : (key, value) ∈ l :=
  mem_of_mem_ofList (mem_entries h)

theorem exists_get?_ofList {l : List (String × β)} {key : String} (h : key ∈ l.map Prod.fst) :
    ∃ value, (ofList l).get? key = some value := by
  cases hfound : (ofList l).get? key with
  | some value => exact ⟨value, rfl⟩
  | none =>
      have hlookup : l.reverse.lookup key = none :=
        (Option.or_eq_none_iff.mp ((get?_insertAll {} l key).symm.trans hfound)).1
      obtain ⟨entry, hentry, rfl⟩ := List.mem_map.mp h
      have hne := List.lookup_eq_none_iff.mp hlookup entry (List.mem_reverse.mpr hentry)
      exact absurd rfl (bne_iff_ne.mp hne)

theorem mem_keys_ofList {l : List (String × β)} {key : String} :
    key ∈ (ofList l).keys ↔ key ∈ l.map Prod.fst := by
  constructor
  · intro h
    obtain ⟨entry, hentry, rfl⟩ := List.mem_map.mp h
    exact List.mem_map_of_mem (mem_of_mem_ofList hentry)
  · intro h
    exact mem_keys (contains_iff.mpr (exists_get?_ofList h))

/-- What is put in later counts. -/
theorem mem_of_get?_ofList_append {l l' : List (String × β)} {key : String} {value : β}
    (h : (ofList (l ++ l')).get? key = some value) (hkey : key ∈ l'.map Prod.fst) :
    (key, value) ∈ l' := by
  have hsplit : ofList (l ++ l') = (ofList l).insertAll l' := List.foldl_append
  obtain ⟨value', hvalue'⟩ := exists_get?_ofList hkey
  have hlookup : l'.reverse.lookup key = some value' := by
    rw [ofList, get?_insertAll] at hvalue'
    exact Option.or_none.symm.trans hvalue'
  rw [hsplit, get?_insertAll, hlookup] at h
  cases h
  exact mem_of_get?_ofList hvalue'

theorem get?_ofList_map {γ : Type} (f : β → γ) (l : List (String × β)) (key : String) :
    (ofList (l.map fun entry => (entry.1, f entry.2))).get? key = ((ofList l).get? key).map f := by
  have hlookup : ∀ l : List (String × β),
      (l.map fun entry => (entry.1, f entry.2)).lookup key = (l.lookup key).map f := by
    intro l
    induction l with
    | nil => rfl
    | cons entry rest ih =>
        rw [List.map_cons, List.lookup_cons, List.lookup_cons, ih]
        cases key == entry.1 <;> rfl
  rw [ofList, ofList, get?_insertAll, get?_insertAll, ← List.map_reverse, hlookup]
  exact (Option.or_none (o := (l.reverse.lookup key).map f)).trans
    (congrArg (Option.map f) Option.or_none.symm)

/-- Without repeated names the order in which values are put in does not matter. -/
theorem get?_ofList_perm {l l' : List (String × β)} (h : l.Perm l') (hnodup : (l.map Prod.fst).Nodup)
    (key : String) : (ofList l).get? key = (ofList l').get? key := by
  cases hfound : (ofList l).get? key with
  | some value =>
      have hmem := mem_of_get?_ofList hfound
      obtain ⟨value', hfound'⟩ := exists_get?_ofList (List.mem_map_of_mem (f := Prod.fst) (h.mem_iff.mp hmem))
      have hmem' := h.mem_iff.mpr (mem_of_get?_ofList hfound')
      have hvalue : value = value' :=
        congrArg Prod.snd (List.inj_on_of_nodup_map hnodup hmem hmem' rfl)
      rw [hvalue]
      exact hfound'.symm
  | none =>
      cases hfound' : (ofList l').get? key with
      | none => rfl
      | some value =>
          have hmem := h.mem_iff.mpr (mem_of_get?_ofList hfound')
          obtain ⟨value', hvalue'⟩ := exists_get?_ofList (List.mem_map_of_mem (f := Prod.fst) hmem)
          rw [hfound] at hvalue'
          cases hvalue'

/-- Entries whose values depend on their names alone cannot contradict each other. -/
theorem get?_insertAll_map {γ : Type} (d : Dict β) (f : String → β) (name : γ → String)
    (l : List γ) (k : String) :
    (d.insertAll (l.map fun a => (name a, f (name a)))).get? k =
      if k ∈ l.map name then some (f k) else d.get? k := by
  induction l generalizing d with
  | nil => rfl
  | cons a rest ih =>
      have hstep : d.insertAll ((a :: rest).map fun a => (name a, f (name a))) =
          (d.insert (name a) (f (name a))).insertAll (rest.map fun a => (name a, f (name a))) := rfl
      rw [hstep, ih, get?_insert, List.map_cons]
      by_cases hr : k ∈ rest.map name
      · rw [if_pos hr, if_pos (List.mem_cons_of_mem _ hr)]
      · rw [if_neg hr]
        by_cases hk : k = name a
        · rw [if_pos hk, if_pos (by rw [hk]; exact List.mem_cons_self), hk]
        · rw [if_neg hk, if_neg (by simpa [hk] using hr)]

/-! ## Order of names -/

/-- The names are in ascending order. -/
def Ascending (d : Dict β) : Prop :=
  d.keys.Pairwise (· < ·)

theorem ascending_insert {d : Dict β} (h : d.Ascending) (key : String) (value : β) :
    (d.insert key value).Ascending := by
  obtain ⟨entries⟩ := d
  show ((insertEntry key value entries).map Prod.fst).Pairwise (· < ·)
  have hentries : (entries.map Prod.fst).Pairwise (· < ·) := h
  clear h
  induction entries with
  | nil => exact List.pairwise_singleton _ _
  | cons entry rest ih =>
      obtain ⟨k, v⟩ := entry
      obtain ⟨hk, hrest⟩ := List.pairwise_cons.mp hentries
      rw [insertEntry]
      split
      · rename_i hlt
        refine List.pairwise_cons.mpr ⟨fun x hx => ?_, hentries⟩
        rcases List.mem_cons.mp hx with rfl | hx
        · exact hlt
        · exact String.lt_trans hlt (hk x hx)
      · rename_i hnot
        split
        · rename_i heq
          rw [heq]
          exact hentries
        · rename_i hne
          have hlt : k < key := by
            by_contra hge
            exact hne (String.le_antisymm (String.not_lt.mp hge) (String.not_lt.mp hnot))
          refine List.pairwise_cons.mpr ⟨fun x hx => ?_, ih hrest⟩
          obtain ⟨added, hadded, rfl⟩ := List.mem_map.mp hx
          rcases mem_of_mem_insertEntry hadded with rfl | hadded
          · exact hlt
          · exact hk _ (List.mem_map_of_mem hadded)

theorem Ascending.nodup {d : Dict β} (h : d.Ascending) : d.keys.Nodup :=
  List.Pairwise.imp (fun {a b} (hlt : a < b) (heq : a = b) => String.lt_irrefl b (heq ▸ hlt)) h

theorem Ascending.mem_entries_iff {d : Dict β} (h : d.Ascending) {key : String} {value : β} :
    (key, value) ∈ d.entries ↔ d.get? key = some value := by
  refine ⟨fun hmem => ?_, mem_entries⟩
  cases hget : d.get? key with
  | none =>
      have hne := List.lookup_eq_none_iff.mp hget (key, value) hmem
      exact absurd rfl (bne_iff_ne.mp hne)
  | some found =>
      have heq := List.inj_on_of_nodup_map h.nodup hmem (mem_entries hget) rfl
      exact congrArg some (congrArg Prod.snd heq).symm

/-- Dictionaries with the same values under the same names are equal. -/
theorem Ascending.ext {d d' : Dict β} (h : d.Ascending) (h' : d'.Ascending)
    (heq : ∀ key, d.get? key = d'.get? key) : d = d' := by
  have hmem : ∀ entry, entry ∈ d.entries ↔ entry ∈ d'.entries := by
    intro entry
    rw [h.mem_entries_iff, h'.mem_entries_iff, heq]
  have hsorted : d.entries.Pairwise fun a b => a.1 < b.1 := List.pairwise_map.mp h
  have hsorted' : d'.entries.Pairwise fun a b => a.1 < b.1 := List.pairwise_map.mp h'
  have hentries : d.entries = d'.entries :=
    Sorted.eq_of_mem_iff (fun _ _ hab hba => String.lt_irrefl _ (String.lt_trans hab hba))
      hsorted hsorted' hmem
  obtain ⟨entries⟩ := d
  obtain ⟨entries'⟩ := d'
  exact congrArg Dict.mk hentries

end Dict
end Schematic
