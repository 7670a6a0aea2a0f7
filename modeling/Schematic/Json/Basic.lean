import Schematic.Real.Binary64

/-!
# JSON values

A number is an integer of 64 bits or a double.  The members of an object keep their
order, and a key may stand in it twice.
-/

namespace Schematic

/-- A place in a text: the line from 1, and the bytes since it began. -/
structure Mark where
  line : Nat
  column : Nat
deriving DecidableEq, Repr

/-- The place behind one more byte.  A newline begins the next line. -/
def Mark.after (mark : Mark) (byte : UInt8) : Mark :=
  if byte = 10 then ⟨mark.line + 1, 0⟩ else ⟨mark.line, mark.column + 1⟩

/-- Integers that fit 64 bits are kept apart from all other numbers. -/
inductive Number where
  | integer (value : Int)
  | real (value : Binary64)
deriving DecidableEq, Repr

inductive Json where
  | null
  | bool (value : Bool)
  | number (value : Number)
  | string (value : String)
  | array (items : List Json)
  | object (members : List (String × Json))
deriving Repr

namespace Json

mutual

/-- How many brackets enclose the innermost value, its own included. -/
def depth : Json → Nat
  | .array items => itemsDepth items + 1
  | .object members => membersDepth members + 1
  | _ => 0

def itemsDepth : List Json → Nat
  | [] => 0
  | item :: rest => max item.depth (itemsDepth rest)

def membersDepth : List (String × Json) → Nat
  | [] => 0
  | (_, value) :: rest => max value.depth (membersDepth rest)

end

end Json

/-! ## The value of a number's digits

Digits are gathered into a significand of 64 bits.  What no longer fits is dropped:
before the point each dropped digit is worth a factor of ten, behind it nothing.
The significand, rounded to a double, is then multiplied or divided by one power of
ten, so that a number is rounded at most twice. -/

namespace Number

def largestWord : Nat := Nat.pow 2 64 - 1

/-- A number's text, cut up: digits are values below ten. -/
structure Digits where
  negative : Bool
  whole : List Nat
  /-- `none` when there is no point. -/
  fraction : Option (List Nat)
  /-- `none` when there is no exponent, else its sign and its size. -/
  exponent : Option (Bool × Nat)

/-- Digits taken into the significand while it fits, and those left. -/
def gather (significand : Nat) : List Nat → Nat × List Nat
  | [] => (significand, [])
  | digit :: rest =>
    if largestWord < significand * 10 + digit then (significand, digit :: rest)
    else gather (significand * 10 + digit) rest

/-- Divides by `10 ^ 308` until the exponent is one a double can have.  A
significand is zero after two such steps. -/
def scaleDown : (fuel : Nat) → Binary64 → Nat → Binary64
  | 0, _, _ => ⟨0⟩
  | fuel + 1, x, exponent =>
    if x.isZero then x
    else if exponent ≤ 308 then x.div (.powerOfTen exponent)
    else scaleDown fuel (x.div (.powerOfTen 308)) (exponent - 308)

/-- `significand · 10 ^ exponent`, or nothing when that is beyond every double. -/
def scaled? (significand : Nat) (exponent : Int) : Option Binary64 :=
  let x := Binary64.ofNat significand
  if exponent < 0 then some (scaleDown 4 x exponent.natAbs)
  else if exponent ≤ 308 then
    let product := x.mul (.powerOfTen exponent.toNat)
    if product.isFinite then some product else none
  else if x.isZero then some x
  else none

/-- The number that digits denote, or nothing when it is beyond every double. -/
def ofDigits? (d : Digits) : Option Number :=
  let signed := fun x : Binary64 => Number.real (if d.negative then x.negate else x)
  let (head, dropped) := gather 0 d.whole
  match d.fraction, d.exponent with
  | none, none =>
    if dropped.isEmpty then
      if d.negative then
        if 0 < head && head ≤ Nat.pow 2 63 then some (.integer (-(head : Int)))
        else some (signed (.ofNat head))
      else some (.integer head)
    else (scaled? head dropped.length).map signed
  | fraction, exponent =>
    let behind := fraction.getD []
    let (significand, left) := gather head behind
    let point : Int := dropped.length - (behind.length - left.length : Nat)
    let shift : Int :=
      match exponent with
      | none => 0
      | some (down, size) => if down then -(size : Int) else size
    (scaled? significand (point + shift)).map signed

end Number
end Schematic
