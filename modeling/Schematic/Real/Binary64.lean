/-!
# Double precision numbers by their bits

A finite double is `significand · 2 ^ scale / 2 ^ 1074` with a sign.  Everything
here is exact arithmetic on natural numbers, so a value read or written can be
reasoned about without a floating-point unit.  `ofRatio` is the one place where
anything is rounded.
-/

namespace Schematic

structure Binary64 where
  bits : UInt64
deriving DecidableEq, Repr, Inhabited

namespace Binary64

def isNegative (x : Binary64) : Bool :=
  x.bits.toNat / Nat.pow 2 63 == 1

def exponentField (x : Binary64) : Nat :=
  x.bits.toNat / Nat.pow 2 52 % Nat.pow 2 11

def fractionField (x : Binary64) : Nat :=
  x.bits.toNat % Nat.pow 2 52

def isFinite (x : Binary64) : Bool :=
  x.exponentField != 2047

def isNaN (x : Binary64) : Bool :=
  x.exponentField == 2047 && x.fractionField != 0

def significand (x : Binary64) : Nat :=
  if x.exponentField = 0 then x.fractionField else Nat.pow 2 52 + x.fractionField

def scale (x : Binary64) : Nat :=
  x.exponentField - 1

/-- The magnitude of a finite double in units of `2 ^ -1074`. -/
def units (x : Binary64) : Nat :=
  x.significand * Nat.pow 2 x.scale

def unitsPerOne : Nat := Nat.pow 2 1074

def isIntegral (x : Binary64) : Bool :=
  x.isFinite && x.units % unitsPerOne == 0

def isZero (x : Binary64) : Bool :=
  x.isFinite && x.units == 0

/-- The quotient to the nearest natural number, a half going to the even one. -/
def divideToEven (num den : Nat) : Nat :=
  let q := num / den
  let twice := 2 * (num % den)
  if twice < den then q
  else if den < twice then q + 1
  else if q % 2 = 0 then q
  else q + 1

/-- The double nearest to `num / den`, a tie going to the even significand.  What
is too large becomes infinite. -/
def ofRatio (negative : Bool) (num den : Nat) : Binary64 :=
  let units := num * unitsPerOne
  let scale := Nat.log2 (units / den) - 52
  let magnitude := scale * Nat.pow 2 52 + divideToEven units (den * Nat.pow 2 scale)
  let infinite := 2047 * Nat.pow 2 52
  let sign := if negative then Nat.pow 2 63 else 0
  ⟨UInt64.ofNat (sign + min magnitude infinite)⟩

def ofNat (n : Nat) : Binary64 :=
  ofRatio false n 1

def ofInt (i : Int) : Binary64 :=
  ofRatio (decide (i < 0)) i.natAbs 1

def negate (x : Binary64) : Binary64 :=
  ⟨x.bits ^^^ UInt64.ofNat (Nat.pow 2 63)⟩

/-- Product and quotient of finite doubles that are not negative. -/
def mul (x y : Binary64) : Binary64 :=
  ofRatio false (x.units * y.units) (unitsPerOne * unitsPerOne)

def div (x y : Binary64) : Binary64 :=
  ofRatio false x.units y.units

def powerOfTen (n : Nat) : Binary64 :=
  ofNat (Nat.pow 10 n)

end Binary64
end Schematic
