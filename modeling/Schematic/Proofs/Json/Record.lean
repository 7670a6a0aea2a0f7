import Schematic.Document.Encode
import Schematic.Json.Fields

/-!
# Reading what was written

A record is written with its fields as the members of an object.  Reading takes each field from the
member of its name, so a record is read back when every field is.  Which members stand around the
one that is read does not matter as long as no name is given twice.
-/

namespace Schematic
namespace Json

variable {α β : Type}

/-! ## Plain values -/

@[simp]
theorem text_string (s : String) : text (.string s) = some s := rfl

@[simp]
theorem flag_bool (b : Bool) : flag (.bool b) = some b := rfl

@[simp]
theorem integer_uint32 (n : UInt32) : integer uint32? (Encode.integer n.toNat) = some n := by
  have hnonneg : decide (0 ≤ (n.toNat : Int)) = true := decide_eq_true (Int.natCast_nonneg _)
  have hlt : decide ((n.toNat : Int) < Nat.pow 2 32) = true :=
    decide_eq_true (Int.ofNat_lt.mpr n.toNat_lt)
  rw [Encode.integer, integer, uint32?, hnonneg, hlt, Int.toNat_natCast, UInt32.ofNat_toNat]
  rfl

@[simp]
theorem integer_uint64 (n : UInt64) : integer uint64? (Encode.integer n.toNat) = some n := by
  have hnonneg : decide (0 ≤ (n.toNat : Int)) = true := decide_eq_true (Int.natCast_nonneg _)
  have hlt : decide ((n.toNat : Int) < Nat.pow 2 64) = true :=
    decide_eq_true (Int.ofNat_lt.mpr n.toNat_lt)
  rw [Encode.integer, integer, uint64?, hnonneg, hlt, Int.toNat_natCast, UInt64.ofNat_toNat]
  rfl

@[simp]
theorem integer_int32 (i : Int32) : integer int32? (Encode.integer i.toInt) = some i := by
  have hle := i.le_toInt
  have hlt := i.toInt_lt
  simp only [Encode.integer, integer, int32?]
  rw [if_pos (by simp; omega), Int32.ofInt_toInt]

@[simp]
theorem integer_int64 (i : Int64) : integer int64? (Encode.integer i.toInt) = some i := by
  have hle := i.le_toInt
  have hlt := i.toInt_lt
  simp only [Encode.integer, integer, int64?]
  rw [if_pos (by simp; omega), Int64.ofInt_toInt]

theorem real_real {x : Binary64} (h : x.isFinite = true) : real (Encode.real x) = some x := by
  rw [Encode.real, if_pos h]
  rfl

/-- What is absent is read as absent.  No reading takes `null` for a value. -/
theorem nullable_option {item : Decoder α} {encode : α → Json} {a? : Option α}
    (hnull : item .null = none) (h : ∀ a ∈ a?, item (encode a) = some a) :
    nullable item (Encode.option encode a?) = some a? := by
  cases a? with
  | none => rfl
  | some a =>
      have ha := h a rfl
      rw [Encode.option]
      cases hjson : encode a with
      | null =>
          rw [hjson, hnull] at ha
          cases ha
      | _ =>
          rw [nullable, ← hjson, ha, Option.map_some]
          simp

@[simp]
theorem nullable_text (s : Option String) : nullable text (Encode.text? s) = some s :=
  nullable_option rfl fun _ _ => rfl

@[simp]
theorem nullable_flag (b : Option Bool) : nullable flag (Encode.flag? b) = some b :=
  nullable_option rfl fun _ _ => rfl

@[simp]
theorem nullable_size (n : Option UInt64) :
    nullable (integer uint64?) (Encode.size? n) = some n :=
  nullable_option rfl fun n _ => integer_uint64 n

theorem decodeAll_map {item : Decoder α} {encode : α → Json} {items : List α}
    (h : ∀ a ∈ items, item (encode a) = some a) :
    decodeAll item (items.map encode) = some items := by
  induction items with
  | nil => rfl
  | cons a rest ih =>
      have hrest := ih fun b hb => h b (List.mem_cons_of_mem a hb)
      rw [List.map_cons, decodeAll, h a List.mem_cons_self, hrest]
      rfl

theorem list_map {item : Decoder α} {encode : α → Json} {items : List α}
    (h : ∀ a ∈ items, item (encode a) = some a) :
    list item (.array (items.map encode)) = some items :=
  decodeAll_map h

@[simp]
theorem list_texts (items : List String) : list text (Encode.texts items) = some items :=
  list_map fun _ _ => rfl

/-! ## Records -/

namespace Fields

@[simp]
theorem read_const (a : α) (members : List (String × Json)) :
    (const a).read members = some a := rfl

@[simp]
theorem read_and (f : Fields (α → β)) (a : Fields α) (members : List (String × Json)) :
    (f.and a).read members = (f.read members).bind fun g => (a.read members).map g := by
  simp only [and]
  cases f.read members <;> cases a.read members <;> rfl

-- The search for a member is stated member by member.  An equation with `lookup` would be passed by
-- unfolding, and the kernel would then compare numbers with the bounds of their types.
attribute [simp] required defaulted optional

@[simp]
theorem read_ofMember_self (item : Decoder α) (missing : Option α) (name : String) (value : Json)
    (rest : List (String × Json)) :
    (ofMember item missing name).read ((name, value) :: rest) = item value := by
  simp [ofMember]

@[simp]
theorem read_ofMember_of_ne (item : Decoder α) (missing : Option α) {name key : String}
    (h : name ≠ key) (value : Json) (rest : List (String × Json)) :
    (ofMember item missing name).read ((key, value) :: rest) =
      (ofMember item missing name).read rest := by
  simp only [ofMember, List.lookup_cons, beq_false_of_ne h]

theorem repeats_of_nodup {names : List String} {members : List (String × Json)}
    (h : (members.map Prod.fst).Nodup) : repeats names members = false := by
  induction members with
  | nil => rfl
  | cons member rest ih =>
      obtain ⟨key, value⟩ := member
      rw [List.map_cons, List.nodup_cons] at h
      have hkey : (rest.any fun member => member.1 = key) = false := by
        rw [List.any_eq_false]
        intro member hmember heq
        have hname := List.mem_map_of_mem (f := Prod.fst) hmember
        rw [of_decide_eq_true heq] at hname
        exact h.1 hname
      rw [repeats, hkey, Bool.and_false, Bool.false_or, ih h.2]

/-- The members are those of a record that is read as `a`. -/
structure Reads (fields : Fields α) (members : List (String × Json)) (a : α) : Prop where
  distinct : (members.map Prod.fst).Nodup
  read : fields.read members = some a

theorem Reads.decode {fields : Fields α} {members : List (String × Json)} {a : α}
    (h : fields.Reads members a) : fields.decode (.object members) = some a := by
  rw [Fields.decode, repeats_of_nodup h.distinct]
  exact h.read

theorem Reads.map {fields : Fields α} {members : List (String × Json)} {a : α}
    (h : fields.Reads members a) (f : α → β) : ((const f).and fields).Reads members (f a) where
  distinct := h.distinct
  read := by rw [read_and, read_const, h.read, Option.bind_some, Option.map_some]

end Fields

/-! ## Tagged values -/

theorem splitTag_some {tagOf : Decoder α} {key : String} {members : List (String × Json)}
    (h : key ∉ members.map Prod.fst) (a : α) :
    splitTag key tagOf (some a) members = some (a, members) := by
  induction members with
  | nil => rfl
  | cons member rest ih =>
      obtain ⟨name, value⟩ := member
      rw [List.map_cons, List.mem_cons, not_or] at h
      rw [splitTag, if_neg (Ne.symm h.1), ih h.2]
      rfl

/-- A tag in front says as what the other members are read. -/
theorem Fields.Reads.tagged {fields : Fields α} {members : List (String × Json)} {a : α}
    (h : fields.Reads members a) {byNumber : Bool} {key name : String}
    {kinds : List (String × Decoder α)} (hkind : kinds.lookup name = some fields.decode)
    (hkey : key ∉ members.map Prod.fst) :
    tagged byNumber key kinds (.object ((key, .string name) :: members)) = some a := by
  rw [Json.tagged, splitTag, if_pos rfl]
  simp only [tag, hkind, Option.bind_eq_bind, Option.bind_some, splitTag_some hkey]
  exact h.decode

/-! ## Depth -/

theorem depth_le_itemsDepth {item : Json} {items : List Json} (h : item ∈ items) :
    item.depth ≤ itemsDepth items := by
  induction h with
  | head rest => exact Nat.le_max_left _ _
  | tail first _ ih => exact Nat.le_trans ih (Nat.le_max_right _ _)

end Json
end Schematic
