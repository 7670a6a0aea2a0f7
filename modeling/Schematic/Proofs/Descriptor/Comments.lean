import Schematic.Descriptor.Draft
import Schematic.Proofs.Descriptor.Path

/-!
# Comments of a draft

The comments of a draft stand in rows as its elements do.  So no two of them have the same path, and
the locations of a file are in strictly ascending order.
-/

namespace Schematic

/-! ## Rows of comments -/

namespace Comments

/-- The comments of a row whose items stand from place `start` on. -/
def row (number : Int) (start : Nat) (items : List (List Comment)) : List Comment :=
  (items.zipIdx start).flatMap fun item => item.1.map (Comment.under [number, item.2])

/-- The comments of all rows of an element. -/
def rows (rows : List (Int × List (List Comment))) : List Comment :=
  rows.flatMap fun r => row r.1 0 r.2

theorem row_append (number : Int) (start : Nat) (a b : List (List Comment)) :
    row number start (a ++ b) = row number start a ++ row number (start + a.length) b := by
  rw [row, List.zipIdx_append, List.flatMap_append, Nat.add_comm start]
  rfl

/-- Items without comments give none. -/
theorem row_of_silent {number : Int} {start : Nat} {items : List (List Comment)}
    (h : ∀ comments ∈ items, comments = []) : row number start items = [] := by
  refine List.flatMap_eq_nil_iff.mpr fun item hitem => ?_
  rw [h item.1 (List.fst_mem_of_mem_zipIdx hitem), List.map_nil]

theorem paths_row (number : Int) (items : List (List Comment)) :
    (row number 0 items).map Comment.path =
      Path.row number (items.map fun item => item.map Comment.path) := by
  simp only [row, Path.row, List.map_flatMap, List.zipIdx_map, List.flatMap_map, List.map_map,
    Prod.map_fst, Prod.map_snd, id_eq]
  rfl

end Comments

theorem Comment.map_under_describing (start path : List Int) (span : Span)
    (description : Option String) :
    (describing path span description).map (under start) =
      describing (start ++ path) span description := by
  unfold describing
  split
  · split <;> rfl
  · rfl

theorem Described.comments_eq {α : Type} (number : Int) (items : List (Described α)) :
    Described.comments number items = Comments.row number 0
      (items.map fun item => Comment.describing [] item.span item.description) := by
  simp only [Described.comments, Comments.row, List.zipIdx_map, List.flatMap_map, Prod.map_fst,
    Prod.map_snd, id_eq, Comment.map_under_describing, List.append_nil]

theorem EnumDraft.comments_eq (d : EnumDraft) :
    d.comments = Comment.describing [] d.span d.description ++ Comments.rows
      [(2, d.values.map fun v => Comment.describing [] v.span v.description)] := by
  rw [comments, Described.comments_eq, Comments.rows, List.flatMap_singleton]

theorem ServiceDraft.comments_eq (d : ServiceDraft) :
    d.comments = Comment.describing [] d.span d.description ++ Comments.rows
      [(2, d.methods.map fun m => Comment.describing [] m.span m.description)] := by
  rw [comments, Described.comments_eq, Comments.rows, List.flatMap_singleton]

namespace MessageDraft

theorem enumComments_eq (number : Int) (enums : List EnumDraft) :
    enumComments number enums = Comments.row number 0 (enums.map EnumDraft.comments) := by
  simp only [enumComments, Comments.row, List.zipIdx_map, List.flatMap_map, Prod.map_fst, Prod.map_snd,
    id_eq]

theorem messageComments_eq (number : Int) (start : Nat) (drafts : List MessageDraft) :
    messageComments number start drafts = Comments.row number start (drafts.map comments) := by
  induction drafts generalizing start with
  | nil => rfl
  | cons d rest ih =>
      rw [messageComments, ih, List.map_cons, Comments.row, Comments.row, List.zipIdx_cons,
        List.flatMap_cons]

theorem comments_eq (d : MessageDraft) :
    d.comments = Comment.describing [] d.span d.description ++ Comments.rows
      [(2, d.fields.map fun f => Comment.describing [] f.span f.description),
        (8, d.oneofs.map fun o => Comment.describing [] o.span o.description),
        (3, d.nested.map comments), (4, d.enums.map EnumDraft.comments)] := by
  obtain ⟨name, description, span, fields, oneofs, synthetic, nested, enums, options⟩ := d
  rw [comments, Described.comments_eq, Described.comments_eq, messageComments_eq, enumComments_eq]
  simp only [Comments.rows, List.flatMap_cons, List.flatMap_nil, List.append_nil, List.append_assoc]

end MessageDraft

theorem FileDraft.comments_eq (d : FileDraft) : d.comments = Comments.rows
    [(4, d.messages.map MessageDraft.comments), (5, d.enums.map EnumDraft.comments),
      (6, d.services.map ServiceDraft.comments)] := by
  rw [comments, MessageDraft.messageComments_eq, MessageDraft.enumComments_eq]
  simp only [Comments.rows, Comments.row, List.flatMap_cons, List.flatMap_nil, List.append_nil,
    List.append_assoc, List.zipIdx_map, List.flatMap_map, Prod.map_fst, Prod.map_snd, id_eq]

/-! ## What comments say -/

namespace Comments

/-- A comment stands at a path and has a text. -/
def Says (comments : List Comment) (path : List Int) (text : String) : Prop :=
  ∃ c ∈ comments, c.path = path ∧ c.text = text

variable {path : List Int} {text : String}

theorem says_append {a b : List Comment} : Says (a ++ b) path text ↔ Says a path text ∨ Says b path text := by
  simp only [Says, List.mem_append, or_and_right, exists_or]

theorem says_describing {span : Span} {description : Option String} :
    Says (Comment.describing [] span description) path text ↔
      path = [] ∧ description = some text ∧ Text.isBlank text = false := by
  unfold Says Comment.describing
  split
  · rename_i given
    split
    · rename_i hblank
      constructor
      · rintro ⟨c, hc, -⟩
        cases hc
      · rintro ⟨-, hgiven, hpresent⟩
        rw [Option.some.inj hgiven, hpresent] at hblank
        cases hblank
    · rename_i hpresent
      constructor
      · rintro ⟨c, hc, rfl, rfl⟩
        rw [List.mem_singleton.mp hc]
        exact ⟨rfl, rfl, Bool.eq_false_iff.mpr hpresent⟩
      · rintro ⟨rfl, hgiven, -⟩
        exact ⟨_, List.mem_singleton.mpr rfl, rfl, Option.some.inj hgiven⟩
  · constructor
    · rintro ⟨c, hc, -⟩
      cases hc
    · rintro ⟨-, hgiven, -⟩
      cases hgiven

theorem says_row {number : Int} {start : Nat} {items : List (List Comment)} :
    Says (row number start items) path text ↔ ∃ (i : Nat) (item : List Comment) (rest : List Int),
      items[i]? = some item ∧ path = number :: ((start + i : Nat) : Int) :: rest ∧ Says item rest text := by
  constructor
  · rintro ⟨c, hc, rfl, rfl⟩
    obtain ⟨⟨item, place⟩, hitem, hc⟩ := List.mem_flatMap.mp hc
    obtain ⟨inner, hinner, rfl⟩ := List.mem_map.mp hc
    obtain ⟨hle, hitem⟩ := List.mk_mem_zipIdx_iff_le_and_getElem?_sub.mp hitem
    have hplace : start + (place - start) = place := by omega
    exact ⟨place - start, item, inner.path, hitem, by rw [hplace]; rfl, inner, hinner, rfl, rfl⟩
  · rintro ⟨i, item, rest, hitem, rfl, inner, hinner, rfl, rfl⟩
    refine ⟨inner.under [number, ((start + i : Nat) : Int)], List.mem_flatMap.mpr
      ⟨(item, start + i), ?_, List.mem_map_of_mem hinner⟩, rfl, rfl⟩
    refine List.mk_mem_zipIdx_iff_le_and_getElem?_sub.mpr ⟨by omega, ?_⟩
    rw [Nat.add_sub_cancel_left, hitem]

end Comments

/-! ## Paths are distinct -/

namespace Comments

/-- No two comments have the same path. -/
def Distinct (comments : List Comment) : Prop :=
  (comments.map Comment.path).Nodup

theorem paths_describing (span : Span) (description : Option String) :
    ((Comment.describing [] span description).map Comment.path).Sublist [[]] := by
  unfold Comment.describing
  split
  · split
    · exact List.nil_sublist _
    · exact List.Sublist.refl _
  · exact List.nil_sublist _

theorem distinct_describing (span : Span) (description : Option String) :
    Distinct (Comment.describing [] span description) :=
  (paths_describing span description).nodup (List.nodup_singleton _)

theorem distinct_describings {α : Type} (items : List (Described α)) :
    ∀ comments ∈ items.map fun item => Comment.describing [] item.span item.description,
      Distinct comments := by
  intro comments h
  obtain ⟨item, -, rfl⟩ := List.mem_map.mp h
  exact distinct_describing item.span item.description

theorem distinct_rows {table : List (Int × List (List Comment))} (hnumbers : (table.map Prod.fst).Nodup)
    (hitems : ∀ r ∈ table, ∀ comments ∈ r.2, Distinct comments) (span : Span)
    (description : Option String) :
    Distinct (Comment.describing [] span description ++ rows table) := by
  have hpaths : (rows table).map Comment.path =
      table.flatMap fun r => Path.row r.1 (r.2.map fun item => item.map Comment.path) := by
    rw [rows, List.map_flatMap]
    exact List.flatMap_congr fun r _ => paths_row r.1 r.2
  have hnodup := Path.nodup_rows_map Comment.path hnumbers hitems
  rw [Distinct, List.map_append, hpaths]
  exact ((paths_describing span description).append_right _).nodup hnodup

end Comments

open Comments

theorem EnumDraft.distinct_comments (d : EnumDraft) : Distinct d.comments := by
  rw [EnumDraft.comments_eq]
  refine distinct_rows (by simp) ?_ _ _
  simp only [List.forall_mem_singleton]
  exact distinct_describings d.values

theorem ServiceDraft.distinct_comments (d : ServiceDraft) : Distinct d.comments := by
  rw [ServiceDraft.comments_eq]
  refine distinct_rows (by simp) ?_ _ _
  simp only [List.forall_mem_singleton]
  exact distinct_describings d.methods

theorem EnumDraft.distinct_all (enums : List EnumDraft) :
    ∀ comments ∈ enums.map EnumDraft.comments, Distinct comments := by
  rw [List.forall_mem_map]
  exact fun e _ => e.distinct_comments

mutual

theorem MessageDraft.distinct_comments : (d : MessageDraft) → Distinct d.comments
  | { name, description, span, fields, oneofs, synthetic, nested, enums, options } => by
      rw [MessageDraft.comments_eq]
      refine distinct_rows (by simp) ?_ _ _
      simp only [List.forall_mem_cons]
      refine ⟨distinct_describings fields, distinct_describings oneofs, ?_, EnumDraft.distinct_all enums,
        List.forall_mem_nil _⟩
      rw [List.forall_mem_map]
      exact MessageDraft.distinct_all nested

theorem MessageDraft.distinct_all : (drafts : List MessageDraft) → ∀ d ∈ drafts, Distinct d.comments
  | [] => List.forall_mem_nil _
  | d :: rest => List.forall_mem_cons.mpr ⟨d.distinct_comments, MessageDraft.distinct_all rest⟩

end

theorem FileDraft.distinct_comments (d : FileDraft) : Distinct d.comments := by
  have hrows : Distinct (Comment.describing [] {} none ++ rows
      [(4, d.messages.map MessageDraft.comments), (5, d.enums.map EnumDraft.comments),
        (6, d.services.map ServiceDraft.comments)]) := by
    refine distinct_rows (by simp) ?_ _ _
    simp only [List.forall_mem_cons, List.forall_mem_map]
    exact ⟨fun m _ => m.distinct_comments, fun e _ => e.distinct_comments,
      fun s _ => s.distinct_comments, List.forall_mem_nil _⟩
  rw [FileDraft.comments_eq]
  exact hrows

/-! ## Locations in order -/

namespace Comments

theorem pathLe_iff {p q : List Int} : pathLe p q = true ↔ ¬ q < p := by
  fun_induction pathLe p q with
  | case1 q => simp
  | case2 a p => simp
  | case3 a p b q hlt =>
      have hnot : ¬ b < a := by omega
      have hne : b ≠ a := by omega
      simp [List.cons_lt_cons_iff, hnot, hne]
  | case4 a p b q hnot hlt => simp [List.cons_lt_cons_iff, hlt]
  | case5 a p b q hnot hnot' ih =>
      have heq : a = b := by omega
      simp [ih, heq]

theorem pathLe_trans (a b c : List Int) (hab : pathLe a b = true) (hbc : pathLe b c = true) :
    pathLe a c = true := by
  rw [pathLe_iff, List.not_lt] at hab hbc ⊢
  exact List.le_trans hab hbc

theorem pathLe_total (a b : List Int) : (pathLe a b || pathLe b a) = true := by
  rw [Bool.or_eq_true, pathLe_iff, pathLe_iff, List.not_lt, List.not_lt]
  exact List.le_total a b

theorem perm_locations (comments : List Comment) :
    (locations comments).Perm (comments.map Comment.location) :=
  (List.mergeSort_perm _ _).map _

theorem ascending_locations {comments : List Comment} (h : Distinct comments) :
    ((locations comments).map Location.path).Pairwise (· < ·) := by
  have hsorted : (comments.mergeSort fun a b => pathLe a.path b.path).Pairwise
      fun a b => pathLe a.path b.path = true :=
    List.pairwise_mergeSort (fun a b c => pathLe_trans a.path b.path c.path)
      (fun a b => pathLe_total a.path b.path) comments
  have hdistinct : ((comments.mergeSort fun a b => pathLe a.path b.path).map Comment.path).Nodup :=
    (((List.mergeSort_perm comments _).map Comment.path).nodup_iff).mpr h
  have hpaths : (locations comments).map Location.path =
      (comments.mergeSort fun a b => pathLe a.path b.path).map Comment.path := by
    rw [locations, List.map_map]
    rfl
  rw [hpaths, List.pairwise_map]
  refine (hsorted.and (List.pairwise_map.mp hdistinct)).imp fun {a b} hab => ?_
  have hle := List.not_lt.mp (pathLe_iff.mp hab.1)
  exact (List.le_iff_lt_or_eq.mp hle).resolve_right hab.2

theorem exists_location {comments : List Comment} {path : List Int} {leading : Option String} :
    (∃ l ∈ locations comments, l.path = path ∧ l.leading = leading) ↔
      ∃ text, Says comments path text ∧ leading = some (Comment.leadingText text) := by
  constructor
  · rintro ⟨l, hl, rfl, rfl⟩
    obtain ⟨c, hc, rfl⟩ := List.mem_map.mp ((perm_locations comments).mem_iff.mp hl)
    exact ⟨c.text, ⟨c, hc, rfl, rfl⟩, rfl⟩
  · rintro ⟨text, ⟨c, hc, rfl, rfl⟩, rfl⟩
    exact ⟨c.location, (perm_locations comments).mem_iff.mpr (List.mem_map_of_mem hc), rfl, rfl⟩

end Comments

theorem FileDraft.locations_descriptor (d : FileDraft) :
    d.descriptor.locations.getD [] = Comments.locations d.comments := by
  simp only [descriptor]
  split
  · rename_i hempty
    rw [List.isEmpty_iff.mp hempty, Comments.locations, List.mergeSort_nil]
    rfl
  · rfl

theorem FileDraft.isSome_locations {d : FileDraft} :
    d.descriptor.locations.isSome = true ↔ ∃ path text, Says d.comments path text := by
  simp only [descriptor]
  split
  · rename_i hempty
    rw [List.isEmpty_iff.mp hempty]
    simp [Says]
  · rename_i hsome
    obtain ⟨c, hc⟩ := List.exists_mem_of_ne_nil _ fun hnil => hsome (List.isEmpty_iff.mpr hnil)
    exact ⟨fun _ => ⟨c.path, c.text, c, hc, rfl, rfl⟩, fun _ => rfl⟩

end Schematic
