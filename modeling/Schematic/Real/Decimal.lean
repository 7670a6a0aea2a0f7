import Schematic.Real.Binary64

/-!
# Decimal text of a double

A finite double with no fraction is written with all its digits and `.0`.  Any
other is written with the fewest digits that read back as the same double, the
nearest such when there are several, always positionally.

The shortest digits are found on grids: for one digit, two digits and so on, the
two neighbours of the value on the grid of that many digits are tried.  The first
grid with a neighbour in the interval of reals that round to the double wins.
-/

namespace Schematic
namespace Binary64

/-- The interval of reals that round to a finite double, in quarter units: lower
end, the value itself, upper end.  Below a power of two the gap is half as wide. -/
structure Basin where
  low : Nat
  value : Nat
  high : Nat
  /-- Whether the ends themselves round to the double. -/
  closed : Bool

def basin (x : Binary64) : Basin :=
  let narrow := x.fractionField = 0 && 1 < x.exponentField
  { low := (4 * x.significand - if narrow then 1 else 2) * Nat.pow 2 x.scale
    value := 4 * x.significand * Nat.pow 2 x.scale
    high := (4 * x.significand + 2) * Nat.pow 2 x.scale
    closed := x.significand % 2 = 0 }

def quartersPerOne : Nat := 4 * unitsPerOne

/-- Whether `num / den` quarter units lies in the interval. -/
def Basin.holds (b : Basin) (num den : Nat) : Bool :=
  if b.closed then b.low * den ≤ num && num ≤ b.high * den
  else b.low * den < num && num < b.high * den

/-- `digits · 10 ^ exponent`. -/
structure Decimal where
  digits : Nat
  exponent : Int
deriving DecidableEq, Repr

/-- The power of ten just above a positive value of `quarters` quarter units. -/
def magnitude (quarters : Nat) : Int :=
  let whole := quarters / quartersPerOne
  if whole = 0 then
    let rec belowOne : (fuel : Nat) → (quarters : Nat) → (places : Int) → Int
      | 0, _, places => places
      | fuel + 1, quarters, places =>
        if quartersPerOne ≤ quarters * 10 then places else belowOne fuel (quarters * 10) (places - 1)
    belowOne 400 quarters 0
  else (Nat.toDigits 10 whole).length

/-- The neighbour of the value on the grid `10 ^ exponent` that rounds to the
double, if one does.  Of two the nearer is taken, and the upper one on a tie. -/
def Basin.onGrid? (b : Basin) (exponent : Int) : Option Decimal :=
  let up := Nat.pow 10 exponent.toNat
  let down := Nat.pow 10 (-exponent).toNat
  let step := quartersPerOne * up
  let lower := b.value * down / step
  let holdsLower := b.holds (lower * step) down
  let holdsUpper := b.holds ((lower + 1) * step) down
  let upperNearer := (lower + 1) * step - b.value * down ≤ b.value * down - lower * step
  if holdsLower && !(holdsUpper && upperNearer) then some ⟨lower, exponent⟩
  else if holdsUpper then some ⟨lower + 1, exponent⟩
  else none

/-- The fewest digits that read back.  Seventeen always do. -/
def shortest (x : Binary64) : Decimal :=
  let b := x.basin
  let top := magnitude b.value
  ((List.range 17).findSome? fun n => b.onGrid? (top - (n + 1 : Nat))).getD ⟨0, 0⟩

/-- Positional text, with no point when no digit stands behind it. -/
def Decimal.text (d : Decimal) : String :=
  let digits := Nat.toDigits 10 d.digits
  if 0 ≤ d.exponent then String.ofList (digits ++ List.replicate d.exponent.toNat '0')
  else
    let places := (-d.exponent).toNat
    let padded := List.replicate (places + 1 - digits.length) '0' ++ digits
    let whole := padded.take (padded.length - places)
    let fraction := (padded.drop (padded.length - places)).reverse.dropWhile (· == '0') |>.reverse
    if fraction.isEmpty then String.ofList whole
    else String.ofList (whole ++ '.' :: fraction)

def text (x : Binary64) : String :=
  if x.isNaN then "NaN"
  else
    let sign := if x.isNegative then "-" else ""
    if !x.isFinite then sign ++ "inf"
    else if x.isIntegral then
      sign ++ String.ofList (Nat.toDigits 10 (x.units / unitsPerOne)) ++ ".0"
    else sign ++ x.shortest.text

end Binary64
end Schematic
