import Schematic.Real.Binary64

/-!
# Wire format

A message is a sequence of fields, each a number with a value.  A reader names the
field numbers it knows.  Fields of other numbers are passed over, but must be well
formed.
-/

namespace Schematic
namespace Wire

abbrev Bytes := List UInt8

inductive Value where
  | varint (n : Nat)
  | fixed64 (n : Nat)
  | bytes (b : Bytes)
  | fixed32 (n : Nat)
deriving Repr

/-- The fields of a message in the order in which they stand. -/
abbrev Record := List (Nat × Value)

/-! ## Writing -/

/-- Seven bits to a byte, low ones first, and the high bit on all bytes but the last. -/
def varint (n : Nat) : Bytes :=
  if n < 128 then [n.toUInt8] else (n % 128 + 128).toUInt8 :: varint (n / 128)
termination_by n

def key (number kind : Nat) : Bytes :=
  varint (number * 8 + kind)

def littleEndian : (width : Nat) → (n : Nat) → Bytes
  | 0, _ => []
  | width + 1, n => (n % 256).toUInt8 :: littleEndian width (n / 256)

/-- A signed number as the 64 bits of its two's complement. -/
def unsigned64 (i : Int) : Nat :=
  (i % Nat.pow 2 64).toNat

def putNat (number n : Nat) : Bytes := key number 0 ++ varint n
def putInt (number : Nat) (i : Int) : Bytes := putNat number (unsigned64 i)
def putBool (number : Nat) (b : Bool) : Bytes := putNat number (if b then 1 else 0)
def putReal (number : Nat) (x : Binary64) : Bytes := key number 1 ++ littleEndian 8 x.bits.toNat
def putBytes (number : Nat) (b : Bytes) : Bytes := key number 2 ++ varint b.length ++ b
def putText (number : Nat) (s : String) : Bytes := putBytes number s.toUTF8.toList

/-- An optional field. -/
def opt {α : Type} (put : Nat → α → Bytes) (number : Nat) : Option α → Bytes
  | none => []
  | some a => put number a

/-- A repeated field. -/
def all {α : Type} (put : Nat → α → Bytes) (number : Nat) (items : List α) : Bytes :=
  items.flatMap (put number)

/-- Numbers one after another in a single field, which is left out if there are none. -/
def putPacked (number : Nat) (items : List Int) : Bytes :=
  if items.isEmpty then [] else putBytes number (items.flatMap fun i => varint (unsigned64 i))

/-! ## Reading -/

/-- Up to ten bytes, of which the tenth holds one bit. -/
def readVarintFrom : (place : Nat) → Bytes → Option (Nat × Bytes)
  | _, [] => none
  | place, b :: rest =>
    if place = 9 ∧ 2 ≤ b.toNat then none
    else if b.toNat < 128 then some (b.toNat, rest)
    else do
      let (high, rest) ← readVarintFrom (place + 1) rest
      return (b.toNat - 128 + 128 * high, rest)

def readVarint (bytes : Bytes) : Option (Nat × Bytes) :=
  readVarintFrom 0 bytes

/-- A field number with the kind of its value. -/
def readKey (bytes : Bytes) : Option (Nat × Nat × Bytes) := do
  let (key, rest) ← readVarint bytes
  if key < Nat.pow 2 32 ∧ 8 ≤ key ∧ key % 8 < 6 then return (key / 8, key % 8, rest) else none

/-- The next `n` bytes and the rest, if there are as many. -/
def take (n : Nat) (bytes : Bytes) : Option (Bytes × Bytes) :=
  if (bytes.take n).length = n then some (bytes.take n, bytes.drop n) else none

def ofLittleEndian : Bytes → Nat
  | [] => 0
  | b :: rest => b.toNat + 256 * ofLittleEndian rest

/-- A value of a kind other than a group. -/
def readValue (kind : Nat) (bytes : Bytes) : Option (Value × Bytes) :=
  match kind with
  | 0 => do
    let (n, rest) ← readVarint bytes
    return (.varint n, rest)
  | 1 => do
    let (b, rest) ← take 8 bytes
    return (.fixed64 (ofLittleEndian b), rest)
  | 2 => do
    let (n, rest) ← readVarint bytes
    let (b, rest) ← take n rest
    return (.bytes b, rest)
  | 5 => do
    let (b, rest) ← take 4 bytes
    return (.fixed32 (ofLittleEndian b), rest)
  | _ => none

/-- Passes over a group up to its end, which bears the group's own number.  `depth` is
how deep groups may still be nested.  Every field takes at least one of the bytes that
`fuel` counts. -/
def skipGroup : (fuel depth number : Nat) → Bytes → Option Bytes
  | 0, _, _, _ => none
  | _, 0, _, _ => none
  | fuel + 1, depth + 1, number, bytes => do
    let (n, kind, rest) ← readKey bytes
    if kind = 4 then if n = number then return rest else none
    else if depth = 0 then none
    else if kind = 3 then
      let rest ← skipGroup fuel depth n rest
      skipGroup fuel (depth + 1) number rest
    else
      let (_, rest) ← readValue kind rest
      skipGroup fuel (depth + 1) number rest

/-- The fields of a message that have one of the numbers `known`.  At depth 0 nothing
can be passed over. -/
def readFields (known : List Nat) (depth : Nat) : (fuel : Nat) → Bytes → Option Record
  | 0, bytes => if bytes.isEmpty then some [] else none
  | fuel + 1, bytes =>
    if bytes.isEmpty then some []
    else do
      let (n, kind, rest) ← readKey bytes
      if known.contains n then
        let (value, rest) ← readValue kind rest
        let fields ← readFields known depth fuel rest
        return (n, value) :: fields
      else if depth = 0 then none
      else if kind = 3 then
        let rest ← skipGroup fuel depth n rest
        readFields known depth fuel rest
      else
        let (_, rest) ← readValue kind rest
        readFields known depth fuel rest

def read (known : List Nat) (depth : Nat) (bytes : Bytes) : Option Record :=
  readFields known depth bytes.length bytes

/-! ## The values of a field -/

namespace Record

def values (r : Record) (number : Nat) : List Value :=
  r.filterMap fun (n, v) => if n = number then some v else none

def varints (r : Record) (number : Nat) : Option (List Nat) :=
  (r.values number).mapM fun
    | .varint n => some n
    | _ => none

def chunks (r : Record) (number : Nat) : Option (List Bytes) :=
  (r.values number).mapM fun
    | .bytes b => some b
    | _ => none

/-- The low 32 bits as a signed number. -/
def signed32 (n : Nat) : Int :=
  Int.bmod n (Nat.pow 2 32)

/-- Of a field that is given more than once the last value counts. -/
def nat? (r : Record) (number : Nat) : Option (Option Nat) := do
  return (← r.varints number).getLast?

def int32? (r : Record) (number : Nat) : Option (Option Int) := do
  return (← r.nat? number).map signed32

def int64? (r : Record) (number : Nat) : Option (Option Int) := do
  return (← r.nat? number).map fun n => Int.bmod n (Nat.pow 2 64)

def bool? (r : Record) (number : Nat) : Option (Option Bool) := do
  return (← r.nat? number).map (· ≠ 0)

def real? (r : Record) (number : Nat) : Option (Option Binary64) := do
  let values ← (r.values number).mapM fun
    | .fixed64 n => some (⟨n.toUInt64⟩ : Binary64)
    | _ => none
  return values.getLast?

def texts (r : Record) (number : Nat) : Option (List String) := do
  (← r.chunks number).mapM fun b => String.fromUTF8? ⟨b.toArray⟩

def text? (r : Record) (number : Nat) : Option (Option String) := do
  return (← r.texts number).getLast?

def bytes? (r : Record) (number : Nat) : Option (Option Bytes) := do
  return (← r.chunks number).getLast?

/-- Numbers to the end of the bytes. -/
def unpack : (fuel : Nat) → Bytes → Option (List Nat)
  | _, [] => some []
  | 0, _ :: _ => none
  | fuel + 1, bytes => do
    let (n, rest) ← readVarint bytes
    return n :: (← unpack fuel rest)

/-- A list of numbers, each in a field of its own or several in one. -/
def int32s (r : Record) (number : Nat) : Option (List Int) := do
  let runs ← (r.values number).mapM fun
    | .varint n => some [n]
    | .bytes b => unpack b.length b
    | _ => none
  return runs.flatten.map signed32

end Record
end Wire
end Schematic
