import Schematic.Json.Basic

/-!
# Reading a JSON text

The reader works on bytes, because places are counted in bytes.  Where it stumbles it
gives the place just behind the offending byte, or the end of the text when that comes
too early.

A value is read or only skipped.  Skipping is content with well-formed text.  Reading also
refuses half a surrogate pair, a number beyond every double, and brackets that are nested
too deep.
-/

namespace Schematic
namespace Json

/-- The bytes still to be read, and the place reached. -/
structure Cursor where
  rest : List UInt8
  mark : Mark := ⟨1, 0⟩

namespace Cursor

/-- Past the next byte, if there is one. -/
def advance (c : Cursor) : Cursor :=
  match c.rest with
  | [] => c
  | byte :: rest => ⟨rest, c.mark.after byte⟩

/-- The place to report when the next byte is the offending one. -/
def offence (c : Cursor) : Mark :=
  c.advance.mark

def isBlank (byte : UInt8) : Bool :=
  byte = 32 || byte = 10 || byte = 13 || byte = 9

def skipBlanks : List UInt8 → Mark → Cursor
  | [], mark => ⟨[], mark⟩
  | byte :: rest, mark =>
    if isBlank byte then skipBlanks rest (mark.after byte) else ⟨byte :: rest, mark⟩

def pastBlanks (c : Cursor) : Cursor :=
  skipBlanks c.rest c.mark

end Cursor

/-! ## Words -/

/-- Expects the bytes of a word. -/
def scanWord : List UInt8 → Cursor → Except Mark Cursor
  | [], c => .ok c
  | expected :: word, c =>
    match c.rest with
    | [] => .error c.mark
    | byte :: _ => if byte = expected then scanWord word c.advance else .error c.offence

/-! ## Numbers -/

def digit? (byte : UInt8) : Option Nat :=
  if 48 ≤ byte && byte ≤ 57 then some (byte.toNat - 48) else none

def scanDigits : List UInt8 → Mark → List Nat × Cursor
  | [], mark => ([], ⟨[], mark⟩)
  | byte :: rest, mark =>
    match digit? byte with
    | none => ([], ⟨byte :: rest, mark⟩)
    | some digit =>
      let (digits, c) := scanDigits rest (mark.after byte)
      (digit :: digits, c)

def digits (c : Cursor) : List Nat × Cursor :=
  scanDigits c.rest c.mark

/-- A zero stands alone, any other digit starts a run of them. -/
def scanWhole (c : Cursor) : Except Mark (List Nat × Cursor) :=
  match c.rest with
  | [] => .error c.mark
  | byte :: _ =>
    match digit? byte with
    | none => .error c.offence
    | some 0 =>
      match c.advance.rest.head?.bind digit? with
      | none => .ok ([0], c.advance)
      | some _ => .error c.advance.offence
    | some _ => .ok (digits c)

def scanFraction (c : Cursor) : Except Mark (Option (List Nat) × Cursor) :=
  if c.rest.head? = some 46 then
    match digits c.advance with
    | ([], _) => .error c.advance.offence
    | (places, c) => .ok (some places, c)
  else .ok (none, c)

def largestExponent : Nat := Nat.pow 2 31 - 1

/-- The exponent's size, and the place at which it outgrows 31 bits if it does. -/
def exponentSize (size : Nat) : List UInt8 → Mark → Nat × Option Mark
  | [], _ => (size, none)
  | byte :: rest, mark =>
    match digit? byte with
    | none => (size, none)
    | some digit =>
      if largestExponent < size * 10 + digit then (size * 10 + digit, some (mark.after byte))
      else exponentSize (size * 10 + digit) rest (mark.after byte)

structure Exponent where
  down : Bool
  size : Nat
  overflow : Option Mark

def scanExponent (c : Cursor) : Except Mark (Option Exponent × Cursor) :=
  if c.rest.head? = some 101 || c.rest.head? = some 69 then
    let c := c.advance
    let down := c.rest.head? = some 45
    let c := if down || c.rest.head? = some 43 then c.advance else c
    match c.rest with
    | [] => .error c.mark
    | byte :: _ =>
      match digit? byte with
      | none => .error c.offence
      | some _ =>
        let (size, overflow) := exponentSize 0 c.rest c.mark
        .ok (some ⟨down, size, overflow⟩, (digits c).2)
  else .ok (none, c)

/-- A number.  One that is too large is refused at its end, or at the digit at which its
exponent becomes too large. -/
def scanNumber (c : Cursor) : Except Mark (Number × Cursor) := do
  let negative := c.rest.head? = some 45
  let (whole, c) ← scanWhole (if negative then c.advance else c)
  let (fraction, c) ← scanFraction c
  let (exponent, c) ← scanExponent c
  let shift := exponent.map fun e => (e.down, e.size)
  match Number.ofDigits? ⟨negative, whole, fraction, shift⟩ with
  | some value => return (value, c)
  | none => throw ((exponent.bind Exponent.overflow).getD c.mark)

def skipNumber (c : Cursor) : Except Mark Cursor := do
  let (_, c) ← scanWhole (if c.rest.head? = some 45 then c.advance else c)
  let (_, c) ← scanFraction c
  let (_, c) ← scanExponent c
  return c

def startsNumber (byte : UInt8) : Bool := byte = 45 || (digit? byte).isSome

/-! ## Strings -/

def hexDigit? (byte : UInt8) : Option Nat :=
  if 48 ≤ byte && byte ≤ 57 then some (byte.toNat - 48)
  else if 97 ≤ byte && byte ≤ 102 then some (byte.toNat - 87)
  else if 65 ≤ byte && byte ≤ 70 then some (byte.toNat - 55)
  else none

/-- Four hexadecimal digits. -/
def scanHex (c : Cursor) : Except Mark (Nat × Cursor) :=
  match c.rest with
  | b₁ :: b₂ :: b₃ :: b₄ :: _ =>
    let next := c.advance.advance.advance.advance
    match hexDigit? b₁, hexDigit? b₂, hexDigit? b₃, hexDigit? b₄ with
    | some d₁, some d₂, some d₃, some d₄ => .ok (((d₁ * 16 + d₂) * 16 + d₃) * 16 + d₄, next)
    | _, _, _, _ => .error next.mark
  | _ => .error (c.advance.advance.advance).mark

def isHighSurrogate (unit : Nat) : Bool := 0xD800 ≤ unit && unit ≤ 0xDBFF
def isLowSurrogate (unit : Nat) : Bool := 0xDC00 ≤ unit && unit ≤ 0xDFFF

def bytesOfCode (code : Nat) : List UInt8 := String.utf8EncodeChar (Char.ofNat code)

/-- Expects one byte and otherwise stumbles over the one that is there. -/
def scanByte (expected : UInt8) (c : Cursor) : Except Mark Cursor :=
  if c.rest.head? = some expected then .ok c.advance else .error c.offence

/-- The rest of an escape, once `\u` is read.  A high surrogate needs a low one right
behind it, and a low one never stands alone. -/
def scanUnicode (c : Cursor) : Except Mark (List UInt8 × Cursor) := do
  let (unit, c) ← scanHex c
  if isLowSurrogate unit then throw c.mark
  if !isHighSurrogate unit then return (bytesOfCode unit, c)
  let c ← scanByte 92 c
  let c ← scanByte 117 c
  let (low, c) ← scanHex c
  if isLowSurrogate low then
    return (bytesOfCode (0x10000 + (unit - 0xD800) * 0x400 + (low - 0xDC00)), c)
  else throw c.mark

/-- The character a one-letter escape stands for. -/
def simpleEscape? : UInt8 → Option UInt8
  | 34 => some 34
  | 92 => some 92
  | 47 => some 47
  | 98 => some 8
  | 102 => some 12
  | 110 => some 10
  | 114 => some 13
  | 116 => some 9
  | _ => none

/-- What a backslash introduces. -/
def scanEscape (c : Cursor) : Except Mark (List UInt8 × Cursor) :=
  match c.rest with
  | [] => .error c.mark
  | 117 :: _ => scanUnicode c.advance
  | byte :: _ =>
    match simpleEscape? byte with
    | some plain => .ok ([plain], c.advance)
    | none => .error c.offence

def skipEscape (c : Cursor) : Except Mark Cursor :=
  match c.rest with
  | [] => .error c.mark
  | 117 :: _ => (scanHex c.advance).map Prod.snd
  | byte :: _ => if (simpleEscape? byte).isSome then .ok c.advance else .error c.offence

/-- The bytes of a string up to its closing quote, latest first. -/
def scanChars : (fuel : Nat) → (taken : List UInt8) → Cursor → Except Mark (List UInt8 × Cursor)
  | 0, _, c => .error c.mark
  | fuel + 1, taken, c =>
    match c.rest with
    | [] => .error c.mark
    | 34 :: _ => .ok (taken, c.advance)
    | 92 :: _ =>
      match scanEscape c.advance with
      | .error mark => .error mark
      | .ok (bytes, c) => scanChars fuel (bytes.reverse ++ taken) c
    | byte :: _ =>
      if byte < 32 then .error c.offence else scanChars fuel (byte :: taken) c.advance

/-- Skips to behind the closing quote.  A control character is refused at its start. -/
def skipChars : (fuel : Nat) → Cursor → Except Mark Cursor
  | 0, c => .error c.mark
  | fuel + 1, c =>
    match c.rest with
    | [] => .error c.mark
    | 34 :: _ => .ok c.advance
    | 92 :: _ =>
      match skipEscape c.advance with
      | .error mark => .error mark
      | .ok c => skipChars fuel c
    | byte :: _ => if byte < 32 then .error c.mark else skipChars fuel c.advance

def textOfBytes (bytes : List UInt8) : String :=
  (String.fromUTF8? ⟨bytes.toArray⟩).getD ""

/-- A string, its opening quote already read. -/
def scanString (fuel : Nat) (c : Cursor) : Except Mark (String × Cursor) := do
  let (taken, next) ← scanChars fuel [] c
  return (textOfBytes taken.reverse, next)

/-! ## Brackets -/

/-- Goes on to the next item of an array, and tells whether there is one.  The closing
bracket is not passed. -/
def nextItem (first : Bool) (c : Cursor) : Except Mark (Bool × Cursor) :=
  let c := c.pastBlanks
  match c.rest with
  | [] => .error c.mark
  | 93 :: _ => .ok (false, c)
  | 44 :: _ =>
    if first then .ok (true, c)
    else
      let c := c.advance.pastBlanks
      match c.rest with
      | [] => .error c.mark
      | 93 :: _ => .error c.offence
      | _ => .ok (true, c)
  | _ => if first then .ok (true, c) else .error c.offence

/-- Goes on to the text of the next key of an object, and tells whether there is one.  The
closing bracket is not passed. -/
def nextKey (first : Bool) (c : Cursor) : Except Mark (Bool × Cursor) := do
  let c := c.pastBlanks
  match c.rest with
  | [] => .error c.mark
  | 125 :: _ => return (false, c)
  | 44 :: _ =>
    if first then .error c.offence else return (true, ← scanByte 34 c.advance.pastBlanks)
  | _ => if first then return (true, ← scanByte 34 c) else .error c.offence

/-- Passes the colon between a key and its value. -/
def pastColon (c : Cursor) : Except Mark Cursor := scanByte 58 c.pastBlanks

/-! ## Values -/

mutual

/-- A value.  `room` is how many brackets may still be opened. -/
def readValue : (fuel : Nat) → (room : Nat) → Cursor → Except Mark (Json × Cursor)
  | 0, _, c => .error c.mark
  | fuel + 1, room, c => do
    let c := c.pastBlanks
    match c.rest with
    | [] => .error c.mark
    | 110 :: _ => return (.null, ← scanWord [117, 108, 108] c.advance)
    | 116 :: _ => return (.bool true, ← scanWord [114, 117, 101] c.advance)
    | 102 :: _ => return (.bool false, ← scanWord [97, 108, 115, 101] c.advance)
    | 34 :: _ =>
      let (text, c) ← scanString fuel c.advance
      return (.string text, c)
    | 91 :: _ =>
      if room = 0 then .error c.offence
      else
        let (items, c) ← readItems fuel (room - 1) true c.advance
        return (.array items, c)
    | 123 :: _ =>
      if room = 0 then .error c.offence
      else
        let (members, c) ← readMembers fuel (room - 1) true c.advance
        return (.object members, c)
    | byte :: _ =>
      if startsNumber byte then
        let (value, c) ← scanNumber c
        return (.number value, c)
      else .error c.offence

/-- The items of an array up to its closing bracket. -/
def readItems : (fuel : Nat) → (room : Nat) → (first : Bool) → Cursor →
    Except Mark (List Json × Cursor)
  | 0, _, _, c => .error c.mark
  | fuel + 1, room, first, c => do
    let (more, c) ← nextItem first c
    if more then
      let (item, c) ← readValue fuel room c
      let (items, c) ← readItems fuel room false c
      return (item :: items, c)
    else return ([], c.advance)

/-- The members of an object up to its closing bracket. -/
def readMembers : (fuel : Nat) → (room : Nat) → (first : Bool) → Cursor →
    Except Mark (List (String × Json) × Cursor)
  | 0, _, _, c => .error c.mark
  | fuel + 1, room, first, c => do
    let (more, c) ← nextKey first c
    if more then
      let (key, c) ← scanString fuel c
      let (value, c) ← readValue fuel room (← pastColon c)
      let (members, c) ← readMembers fuel room false c
      return ((key, value) :: members, c)
    else return ([], c.advance)

end

/-- Skips a word, a number or a string. -/
def skipScalar (fuel : Nat) (c : Cursor) : Except Mark Cursor :=
  match c.rest with
  | [] => .error c.mark
  | 110 :: _ => scanWord [117, 108, 108] c.advance
  | 116 :: _ => scanWord [114, 117, 101] c.advance
  | 102 :: _ => scanWord [97, 108, 115, 101] c.advance
  | 34 :: _ => skipChars fuel c.advance
  | byte :: _ => if startsNumber byte then skipNumber c else .error c.offence

/-- Goes on to the next value before a closing bracket, and tells whether there is one. -/
def nextValue (fuel : Nat) (closing : UInt8) (first : Bool) (c : Cursor) :
    Except Mark (Bool × Cursor) := do
  if closing = 93 then nextItem first c
  else
    let (more, c) ← nextKey first c
    if more then return (true, ← pastColon (← skipChars fuel c)) else return (false, c)

/-- Skips values up to the last of the closing brackets that are due, innermost first.  A
value comes next, or else the `first` or a later value in the innermost bracket. -/
def skipFrom : (fuel : Nat) → (first : Option Bool) → (due : List UInt8) → Cursor →
    Except Mark Cursor
  | 0, _, _, c => .error c.mark
  | fuel + 1, none, due, c =>
    let c := c.pastBlanks
    match c.rest with
    | 91 :: _ => skipFrom fuel (some true) (93 :: due) c.advance
    | 123 :: _ => skipFrom fuel (some true) (125 :: due) c.advance
    | _ =>
      match skipScalar fuel c with
      | .error mark => .error mark
      | .ok c => skipFrom fuel (some false) due c
  | _ + 1, some _, [], c => .ok c
  | fuel + 1, some first, closing :: due, c =>
    match nextValue fuel closing first c with
    | .error mark => .error mark
    | .ok (true, c) => skipFrom fuel none (closing :: due) c
    | .ok (false, c) => skipFrom fuel (some false) due c.advance

/-- Skips a value.  Brackets may be nested as deep as they like. -/
def skipValue (fuel : Nat) (c : Cursor) : Except Mark Cursor := skipFrom fuel none [] c

/-! ## Texts -/

/-- Reads a whole text, behind whose value only blanks may stand.  Every step takes a byte
or closes a bracket, which bounds their number. -/
def readWhole {α : Type} (read : (fuel : Nat) → Cursor → Except Mark (α × Cursor))
    (text : String) : Except Mark α := do
  let bytes := text.toUTF8.toList
  let (value, c) ← read (6 * bytes.length + 6) ⟨bytes, ⟨1, 0⟩⟩
  let c := c.pastBlanks
  if c.rest.isEmpty then return value else throw c.offence

/-- The value of a text, with at most `limit` brackets nested in one another. -/
def read (limit : Nat) (text : String) : Except Mark Json :=
  readWhole (fun fuel c => readValue fuel limit c) text

end Json
end Schematic
