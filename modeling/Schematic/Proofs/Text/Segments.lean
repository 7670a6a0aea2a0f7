import Schematic.Proofs.Text.Dotted
import Mathlib.Data.List.Induction

/-!
# Segments of dotted names

A dotted name is its segments with dots between them.  What a name begins with, up to a dot or as a
whole, is made of its first segments, and so are the scopes around a scope and the packages around a
package.
-/

namespace Schematic
namespace Text

/-! ## Pieces -/

theorem piecesList_ne_nil (sep : Char) (s : List Char) : piecesList sep s ≠ [] := by
  cases s with
  | nil => exact List.cons_ne_nil _ _
  | cons c rest =>
      rw [piecesList]
      split
      · exact List.cons_ne_nil _ _
      · split <;> exact List.cons_ne_nil _ _

theorem piecesList_append (sep : Char) (s t : List Char) :
    piecesList sep (s ++ sep :: t) = piecesList sep s ++ piecesList sep t := by
  induction s with
  | nil => simp [piecesList]
  | cons c rest ih =>
      obtain ⟨first, others, hrest⟩ := List.exists_cons_of_ne_nil (piecesList_ne_nil sep rest)
      rw [hrest] at ih
      rw [List.cons_append, piecesList, piecesList, ih, hrest]
      by_cases hc : c = sep
      · rw [if_pos hc, if_pos hc]
        rfl
      · rw [if_neg hc, if_neg hc]
        rfl

theorem pieces_ne_nil (sep : Char) (s : String) : pieces sep s ≠ [] := by
  rw [pieces, ne_eq, List.map_eq_nil_iff]
  exact piecesList_ne_nil sep s.toList

theorem pieces_mark {sep : Char} {mark : String} (hmark : mark.toList = [sep]) (s t : String) :
    pieces sep (s ++ mark ++ t) = pieces sep s ++ pieces sep t := by
  have hchars : (s ++ mark ++ t).toList = s.toList ++ sep :: t.toList := by
    rw [String.toList_append, String.toList_append, List.append_assoc, hmark]
    rfl
  rw [pieces, hchars, piecesList_append, List.map_append]
  rfl

theorem pieces_append (s t : String) : pieces '.' (s ++ "." ++ t) = pieces '.' s ++ pieces '.' t :=
  pieces_mark rfl s t

theorem piecesList_of_not_mem {sep : Char} {s : List Char} (h : sep ∉ s) : piecesList sep s = [s] := by
  induction s with
  | nil => rfl
  | cons c rest ih =>
      obtain ⟨hc, hrest⟩ := not_or.mp (mt List.mem_cons.mpr h)
      rw [piecesList, if_neg (Ne.symm hc), ih hrest]

theorem pieces_of_not_mem {sep : Char} {s : String} (h : sep ∉ s.toList) : pieces sep s = [s] := by
  rw [pieces, piecesList_of_not_mem h, List.map_singleton, String.ofList_toList]

theorem mem_of_mem_piecesList {sep c : Char} {s piece : List Char} (h : piece ∈ piecesList sep s)
    (hc : c ∈ piece) : c ∈ s := by
  induction s generalizing piece with
  | nil =>
      rw [List.mem_singleton.mp h] at hc
      exact hc
  | cons first rest ih =>
      obtain ⟨head, others, hrest⟩ := List.exists_cons_of_ne_nil (piecesList_ne_nil sep rest)
      rw [piecesList, hrest] at h
      split at h
      · rcases List.mem_cons.mp h with rfl | h
        · cases hc
        · exact List.mem_cons_of_mem first (ih (hrest ▸ h) hc)
      · rcases List.mem_cons.mp h with rfl | h
        · rcases List.mem_cons.mp hc with rfl | hc
          · exact List.mem_cons_self
          · exact List.mem_cons_of_mem first (ih (hrest ▸ List.mem_cons_self) hc)
        · exact List.mem_cons_of_mem first (ih (hrest ▸ List.mem_cons_of_mem head h) hc)

theorem mem_of_mem_pieces {sep c : Char} {s piece : String} (h : piece ∈ pieces sep s)
    (hc : c ∈ piece.toList) : c ∈ s.toList := by
  obtain ⟨chars, hchars, rfl⟩ := List.mem_map.mp h
  rw [String.toList_ofList] at hc
  exact mem_of_mem_piecesList hchars hc

theorem join_append {sep : String} {l l' : List String} (h : l ≠ []) (h' : l' ≠ []) :
    join sep (l ++ l') = join sep l ++ sep ++ join sep l' := by
  induction l with
  | nil => exact absurd rfl h
  | cons first rest ih =>
      cases rest with
      | nil =>
          obtain ⟨next, others, rfl⟩ := List.exists_cons_of_ne_nil h'
          rfl
      | cons second others =>
          rw [List.cons_append, List.cons_append, join_cons_cons, join_cons_cons, ← List.cons_append,
            ih (List.cons_ne_nil _ _)]
          simp only [String.append_assoc]

theorem pieces_join {sep : Char} {mark : String} (hmark : mark.toList = [sep]) {l : List String}
    (hl : l ≠ []) (h : ∀ piece ∈ l, sep ∉ piece.toList) : pieces sep (join mark l) = l := by
  induction l with
  | nil => exact absurd rfl hl
  | cons first rest ih =>
      have hfirst := pieces_of_not_mem (h first List.mem_cons_self)
      cases rest with
      | nil => exact hfirst
      | cons second others =>
          rw [join_cons_cons, pieces_mark hmark, hfirst,
            ih (List.cons_ne_nil _ _) fun piece hpiece => h piece (List.mem_cons_of_mem first hpiece)]
          rfl

theorem join_piecesList (sep : Char) (mark : String) (s : List Char) :
    (join mark ((piecesList sep s).map String.ofList)).toList =
      s.flatMap fun c => if c = sep then mark.toList else [c] := by
  induction s with
  | nil => rfl
  | cons c rest ih =>
      obtain ⟨first, others, hrest⟩ := List.exists_cons_of_ne_nil (piecesList_ne_nil sep rest)
      rw [hrest, List.map_cons] at ih
      rw [piecesList, hrest, List.flatMap_cons, ← ih]
      by_cases hc : c = sep
      · rw [if_pos hc, if_pos hc, List.map_cons, List.map_cons, join_cons_cons, String.toList_append,
          String.toList_append]
        rfl
      · simp only [if_neg hc, List.map_cons]
        cases others with
        | nil => simp [join]
        | cons second others =>
            rw [List.map_cons, join_cons_cons, join_cons_cons]
            simp only [String.toList_append, String.toList_ofList, List.cons_append, List.nil_append]

/-- Pieces that are joined by another mark. -/
theorem join_pieces_mark (sep : Char) (mark s : String) : join mark (pieces sep s) = replace sep mark s := by
  rw [← String.toList_inj, pieces, join_piecesList, replace, String.toList_ofList]

theorem join_pieces (s : String) : join "." (pieces '.' s) = s := by
  have hsame : ∀ c : Char, (if c = '.' then ".".toList else [c]) = [c] := by
    intro c
    split
    · rename_i hc
      rw [hc]
      rfl
    · rfl
  rw [← String.toList_inj, pieces, join_piecesList]
  simp only [hsame, List.flatMap_singleton']

/-! ## Beginnings -/

/-- A dotted name begins with another, which is all of it or ends at a dot. -/
def Begins (start name : String) : Prop :=
  name = start ∨ ∃ rest, name = start ++ "." ++ rest

theorem begins_iff {start name : String} :
    Begins start name ↔ ∃ n, 0 < n ∧ start = join "." ((pieces '.' name).take n) := by
  constructor
  · rintro (rfl | ⟨rest, rfl⟩)
    · refine ⟨(pieces '.' name).length, List.length_pos_iff.mpr (pieces_ne_nil '.' name), ?_⟩
      rw [List.take_length, join_pieces]
    · refine ⟨(pieces '.' start).length, List.length_pos_iff.mpr (pieces_ne_nil '.' start), ?_⟩
      rw [pieces_append, List.take_left, join_pieces]
  · rintro ⟨n, hn, rfl⟩
    have hname : join "." ((pieces '.' name).take n ++ (pieces '.' name).drop n) = name := by
      rw [List.take_append_drop, join_pieces]
    by_cases hdrop : (pieces '.' name).drop n = []
    · rw [hdrop, List.append_nil] at hname
      exact Or.inl hname.symm
    · have htake : (pieces '.' name).take n ≠ [] := by
        rw [ne_eq, List.take_eq_nil_iff, not_or]
        exact ⟨by omega, pieces_ne_nil '.' name⟩
      rw [join_append htake hdrop] at hname
      exact Or.inr ⟨_, hname.symm⟩

/-- One name begins with another if its segments do. -/
theorem begins_iff_isPrefix {start name : String} :
    Begins start name ↔ pieces '.' start <+: pieces '.' name := by
  constructor
  · rintro (rfl | ⟨rest, rfl⟩)
    · exact List.prefix_rfl
    · exact ⟨pieces '.' rest, (pieces_append start rest).symm⟩
  · rintro ⟨rest, hrest⟩
    have hname := join_pieces name
    rw [← hrest] at hname
    by_cases hnil : rest = []
    · rw [hnil, List.append_nil, join_pieces] at hname
      exact Or.inl hname.symm
    · rw [join_append (pieces_ne_nil '.' start) hnil, join_pieces] at hname
      exact Or.inr ⟨_, hname.symm⟩

theorem begins_antisymm {a b : String} (h : Begins a b) (h' : Begins b a) : a = b := by
  rw [begins_iff_isPrefix] at h h'
  rw [← join_pieces a, ← join_pieces b, h.eq_of_length_le h'.length_le]

theorem length_join_take_le (l : List String) {n m : Nat} (h : n ≤ m) :
    (join "." (l.take n)).length ≤ (join "." (l.take m)).length := by
  have hsplit : l.take m = l.take n ++ (l.drop n).take (m - n) := by
    rw [← List.take_add, Nat.add_sub_cancel' h]
  rw [hsplit]
  by_cases hleft : l.take n = []
  · rw [hleft]
    exact Nat.zero_le _
  · by_cases hright : (l.drop n).take (m - n) = []
    · exact Nat.le_of_eq (by rw [hright, List.append_nil])
    · rw [join_append hleft hright, String.length_append, String.length_append]
      omega

end Text

/-! ## Packages around a package -/

theorem foldl_qualify {segments : List String} (h : ∀ segment ∈ segments, '.' ∉ segment.toList) :
    segments.foldl qualify "" = Text.withoutLeading '.' (Text.join "." segments) := by
  have hsegment : ∀ segment : String, '.' ∉ segment.toList →
      segment.toList.dropWhile (· == '.') = segment.toList := by
    intro segment hdot
    cases hchars : segment.toList with
    | nil => rfl
    | cons c rest =>
        rw [hchars, List.mem_cons, not_or] at hdot
        rw [List.dropWhile_cons_of_neg (by simpa using Ne.symm hdot.1)]
  induction segments using List.reverseRecOn with
  | nil => rfl
  | append_singleton rest last ih =>
      obtain ⟨hrest, hlast⟩ := List.forall_mem_append.mp h
      have hlast := hsegment last (hlast last List.mem_cons_self)
      rw [List.foldl_concat, ih hrest]
      by_cases hnil : rest = []
      · rw [hnil, List.nil_append]
        show qualify "" last = Text.withoutLeading '.' last
        rw [qualify, if_pos rfl, Text.withoutLeading, hlast, String.ofList_toList]
      · rw [Text.join_append hnil (List.cons_ne_nil _ _)]
        -- The dots at the front end before the last segment, or reach it.
        have hchars : (Text.join "." rest ++ "." ++ Text.join "." [last]).toList =
            (Text.join "." rest).toList ++ '.' :: last.toList := by
          rw [String.toList_append, String.toList_append, List.append_assoc]
          rfl
        rw [Text.withoutLeading, Text.withoutLeading, hchars, List.dropWhile_append]
        by_cases hdots : (Text.join "." rest).toList.dropWhile (· == '.') = []
        · rw [hdots, if_pos List.isEmpty_nil, List.dropWhile_cons_of_pos (by rfl), hlast]
          rw [qualify, if_pos rfl, String.ofList_toList]
        · have hempty : ¬ ((Text.join "." rest).toList.dropWhile (· == '.')).isEmpty = true := by
            rw [List.isEmpty_iff]
            exact hdots
          have hscope : String.ofList ((Text.join "." rest).toList.dropWhile (· == '.')) ≠ "" := by
            rw [ne_eq, ← String.toList_eq_nil_iff, String.toList_ofList]
            exact hdots
          rw [if_neg hempty, qualify, if_neg hscope, ← String.toList_inj]
          simp

namespace Declared

theorem mem_packagesFrom {name scope : String} {segments : List String} :
    name ∈ packagesFrom scope segments ↔
      ∃ n, 0 < n ∧ n ≤ segments.length ∧ name = (segments.take n).foldl qualify scope := by
  induction segments generalizing scope with
  | nil =>
      refine ⟨fun h => absurd h List.not_mem_nil, ?_⟩
      rintro ⟨n, hpos, hle, -⟩
      rw [List.length_nil] at hle
      omega
  | cons segment rest ih =>
      rw [packagesFrom, List.mem_cons, ih]
      constructor
      · rintro (rfl | ⟨n, -, hle, rfl⟩)
        · exact ⟨1, by omega, by rw [List.length_cons]; omega, rfl⟩
        · exact ⟨n + 1, by omega, by rw [List.length_cons]; omega, rfl⟩
      · rintro ⟨n, hpos, hle, rfl⟩
        obtain ⟨k, rfl⟩ : ∃ k, n = k + 1 := ⟨n - 1, by omega⟩
        rw [List.length_cons] at hle
        by_cases hk : k = 0
        · rw [hk]
          exact Or.inl rfl
        · exact Or.inr ⟨k, by omega, by omega, rfl⟩

end Declared

/-- A name is that of a package around what a file declares: what the file's package begins with, without
dots in front. -/
def FileDescriptor.HasPackage (f : FileDescriptor) (name : String) : Prop :=
  f.packageText ≠ "" ∧ ∃ start, Text.Begins start f.packageText ∧ name = Text.withoutLeading '.' start

theorem Declared.mem_packages {f : FileDescriptor} {name : String} :
    name ∈ packages f ↔ f.HasPackage name := by
  rw [packages, FileDescriptor.HasPackage]
  by_cases hempty : f.packageText = ""
  · simp [hempty]
  · have hfold : ∀ n, ((Text.pieces '.' f.packageText).take n).foldl qualify "" =
        Text.withoutLeading '.' (Text.join "." ((Text.pieces '.' f.packageText).take n)) :=
      fun n => foldl_qualify fun segment h => Text.not_mem_of_mem_pieces (List.mem_of_mem_take h)
    rw [if_neg hempty, mem_packagesFrom]
    refine ⟨?_, ?_⟩
    · rintro ⟨n, hpos, -, rfl⟩
      exact ⟨hempty, _, Text.begins_iff.mpr ⟨n, hpos, rfl⟩, hfold n⟩
    · rintro ⟨-, start, hstart, rfl⟩
      obtain ⟨n, hpos, rfl⟩ := Text.begins_iff.mp hstart
      have hlength := List.length_pos_iff.mpr (Text.pieces_ne_nil '.' f.packageText)
      refine ⟨min n (Text.pieces '.' f.packageText).length, by omega, by omega, ?_⟩
      rw [hfold, ← List.take_take, List.take_length]

end Schematic
