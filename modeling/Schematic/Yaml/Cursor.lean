/-!
# Places in a YAML text

A cursor is what is left of a text, with the place where that starts.  The column decides
which block a thing belongs to, the line and the number of characters how far a key may
be from its colon.
-/

namespace Schematic
namespace Yaml

/-! ## Kinds of characters -/

def isSpace (c : Char) : Bool := c = ' ' || c = '\t'

/-- Line feed, carriage return, next line, line separator and paragraph separator. -/
def isBreak (c : Char) : Bool :=
  [0x0A, 0x0D, 0x85, 0x2028, 0x2029].contains c.toNat

/-- Characters that can stand in a text: no controls but tabs and line breaks. -/
def isAllowed (c : Char) : Bool :=
  let n := c.toNat
  c = '\t' || c = '\n' || c = '\r' || (0x20 ≤ n && n ≤ 0x7E) || n = 0x85 ||
    (0xA0 ≤ n && n ≠ 0xFFFE && n ≠ 0xFFFF)

/-- Characters of names: of anchors, of tag handles, of directives. -/
def isNameChar (c : Char) : Bool := c.isAlphanum || c = '_' || c = '-'

/-- The marks that end a plain scalar inside brackets. -/
def isFlowMark (c : Char) : Bool :=
  c = ',' || c = '[' || c = ']' || c = '\x7b' || c = '\x7d'

/-- Whether a text is at a blank, at a line break or at its end. -/
def startsBlank : List Char → Bool
  | [] => true
  | c :: _ => isSpace c || isBreak c

def hexDigit? (c : Char) : Option Nat :=
  if c.isDigit then some (c.toNat - '0'.toNat)
  else if 'a' ≤ c ∧ c ≤ 'f' then some (c.toNat - 'a'.toNat + 10)
  else if 'A' ≤ c ∧ c ≤ 'F' then some (c.toNat - 'A'.toNat + 10)
  else none

/-! ## Cursors -/

structure Cursor where
  rest : List Char
  /-- How many characters stand before it. -/
  index : Nat := 0
  line : Nat := 0
  column : Nat := 0

namespace Cursor

def isAt (c : Cursor) (p : Char → Bool) : Bool := c.rest.head?.any p

def atEnd (c : Cursor) : Bool := c.rest.isEmpty

/-- The cursor `n` characters further on the same line. -/
def advance (c : Cursor) (n : Nat) : Cursor :=
  { c with rest := c.rest.drop n, index := c.index + n, column := c.column + n }

/-- The characters of a kind that come next. -/
def run (c : Cursor) (p : Char → Bool) : List Char := c.rest.takeWhile p

/-- The cursor behind the characters of a kind.  None of them is a line break. -/
def past (c : Cursor) (p : Char → Bool) : Cursor := c.advance (c.run p).length

/-- The start of the next line, from the line break before it. -/
def nextLine (c : Cursor) : Cursor :=
  match c.rest with
  | [] => c
  | '\r' :: '\n' :: rest => ⟨rest, c.index + 2, c.line + 1, 0⟩
  | _ :: rest => ⟨rest, c.index + 1, c.line + 1, 0⟩

/-- What a line break is read as.  The two separators are kept as they are. -/
def breakText (c : Cursor) : List Char :=
  match c.rest with
  | [] => []
  | ch :: _ => if 0x2028 ≤ ch.toNat then [ch] else ['\n']

/-- Whether three equal marks at the start of a line stand alone. -/
def atMarker (c : Cursor) (mark : Char) : Bool :=
  c.column = 0 && c.rest.take 3 = [mark, mark, mark] && startsBlank (c.rest.drop 3)

/-- Whether a document starts or ends here. -/
def atAnyMarker (c : Cursor) : Bool := c.atMarker '-' || c.atMarker '.'

/-- The rest of a line must be blank or a comment. -/
def restOfLine? (c : Cursor) : Option Cursor :=
  let c := c.past isSpace
  let c := if c.isAt (· = '#') then c.past fun ch => !isBreak ch else c
  if c.atEnd || c.isAt isBreak then some c.nextLine else none

end Cursor

/-! ## Between words -/

/-- What stands between two words of a scalar: blanks on one line, or line breaks, whose
blanks do not count. -/
inductive Gap where
  | spaces (text : List Char)
  | breaks (first others : List Char)

namespace Gap

/-- A single line break is read as a space, and of several the first is dropped.  That is
not done if the first is a separator, or escaped and so read as nothing. -/
def text : Gap → List Char
  | .spaces text => text
  | .breaks ['\n'] [] => [' ']
  | .breaks ['\n'] others => others
  | .breaks first others => first ++ others

def crossesLine : Gap → Bool
  | .spaces _ => false
  | .breaks _ _ => true

def addSpace (c : Char) : Gap → Gap
  | .spaces text => .spaces (text ++ [c])
  | gap => gap

def addBreak (text : List Char) : Gap → Gap
  | .spaces _ => .breaks text []
  | .breaks first others => .breaks first (others ++ text)

/-- Passes over blanks and line breaks.  Before column `least` no tab indents a line. -/
def pass (least : Nat) : (fuel : Nat) → Gap → Cursor → Option (Gap × Cursor)
  | 0, gap, c => some (gap, c)
  | fuel + 1, gap, c =>
    match c.rest with
    | [] => some (gap, c)
    | ch :: _ =>
      if isBreak ch then pass least fuel (gap.addBreak c.breakText) c.nextLine
      else if isSpace ch then
        if gap.crossesLine && ch = '\t' && c.column < least then none
        else pass least fuel (gap.addSpace ch) (c.advance 1)
      else some (gap, c)

end Gap

end Yaml
end Schematic
