import Schematic.Yaml.Property
import Schematic.Yaml.Scalar

/-!
# Tokens of YAML

The column at which a line starts opens and closes blocks, and a colon behind a value
turns out to make it a key.  Tokens make both explicit: a block has a start and an end,
and a key has a mark in front of it.  The end of the list is the end of the text.
-/

namespace Schematic
namespace Yaml

inductive Token where
  | directive (directive : Directive)
  | documentStart
  | documentEnd
  | blockListStart
  | blockMapStart
  | blockEnd
  | flowListStart
  | flowListEnd
  | flowMapStart
  | flowMapEnd
  | item
  | comma
  | key
  | value
  | reference (name : String)
  | anchor (name : String)
  | tag (tag : TagText)
  | scalar (style : Style) (text : String)
deriving DecidableEq, Repr

/-- Where a key may have started.  A colon further on shows that it did. -/
structure KeyStart where
  /-- How many tokens stand before it. -/
  position : Nat
  /-- Whether nothing but a key can stand here. -/
  required : Bool
  index : Nat
  line : Nat
  column : Nat

/-- What has been read of a text. -/
structure Layout where
  cursor : Cursor
  tokens : Array Token := #[]
  /-- The columns of the open blocks, innermost first. -/
  blocks : List Nat := []
  keyAllowed : Bool := true
  keyStart : Option KeyStart := none
  /-- The key starts outside each of the open brackets, innermost first. -/
  outer : List (Option KeyStart) := []

namespace Layout

def inFlow (s : Layout) : Bool := !s.outer.isEmpty

/-- The least column at which something can stand inside the innermost block. -/
def least (s : Layout) : Nat :=
  match s.blocks with
  | [] => 0
  | column :: _ => column + 1

def push (s : Layout) (token : Token) : Layout :=
  { s with tokens := s.tokens.push token }

/-- A token of `n` characters, after which a key may start or not. -/
def mark (s : Layout) (n : Nat) (token : Token) (keyAllowed : Bool) : Layout :=
  { s.push token with cursor := s.cursor.advance n, keyAllowed }

/-! ## Keys -/

/-- A key can no longer have started.  This fails where only a key could stand. -/
def dropKey? (s : Layout) : Option Layout :=
  if s.keyStart.any KeyStart.required then none else some { s with keyStart := none }

/-- A key may start here. -/
def noteKey? (s : Layout) : Option Layout :=
  if s.keyAllowed then do
    let s ← s.dropKey?
    let start := {
      position := s.tokens.size
      required := !s.inFlow && s.least = s.cursor.column + 1
      index := s.cursor.index
      line := s.cursor.line
      column := s.cursor.column }
    return { s with keyStart := some start }
  else some s

/-- A key and its colon stand on one line, at most 1024 characters apart. -/
def expire? (c : Cursor) : Option KeyStart → Option (Option KeyStart)
  | none => some none
  | some start =>
    if start.line < c.line || start.index + 1024 < c.index then
      if start.required then none else some none
    else some (some start)

def expireKeys? (s : Layout) : Option Layout := do
  let keyStart ← expire? s.cursor s.keyStart
  let outer ← s.outer.mapM (expire? s.cursor)
  return { s with keyStart, outer }

/-! ## Blocks -/

/-- Opens a block at a column, if that is further right than the innermost block.  Its
token goes before those that stand at `position` and later. -/
def openBlock (s : Layout) (column position : Nat) (token : Token) : Layout :=
  if s.inFlow || column < s.least then s
  else { s with
    blocks := column :: s.blocks
    tokens := s.tokens.insertIdxIfInBounds position token }

/-- Closes the blocks at columns of a kind. -/
def closeBlocks (s : Layout) (closes : Nat → Bool) : Layout :=
  if s.inFlow then s
  else { s with
    blocks := s.blocks.dropWhile closes
    tokens := s.tokens ++ ((s.blocks.takeWhile closes).map fun _ => Token.blockEnd).toArray }

/-- Closes every block, before a document starts or ends. -/
def closeAll? (s : Layout) : Option Layout :=
  (s.closeBlocks fun _ => true).dropKey?

/-! ## Single tokens -/

/-- Passes over blanks, comments and line breaks.  Outside brackets no tab stands where a
key may start, and a key may start on every line.  A text may start with a byte order
mark. -/
def skipFrom : (fuel : Nat) → Layout → Layout
  | 0, s => s
  | fuel + 1, s =>
    let c := s.cursor
    let c := if c.index = 0 && c.isAt (·.toNat = 0xFEFF) then c.advance 1 else c
    let c := c.past fun ch => ch = ' ' || (ch = '\t' && (s.inFlow || !s.keyAllowed))
    let c := if c.isAt (· = '#') then c.past fun ch => !isBreak ch else c
    if c.isAt isBreak then
      skipFrom fuel { s with cursor := c.nextLine, keyAllowed := s.keyAllowed || !s.inFlow }
    else { s with cursor := c }

def skip (s : Layout) : Layout := s.skipFrom (s.cursor.rest.length + 1)

/-- The start or the end of a document. -/
def marker? (s : Layout) (token : Token) : Option Layout := do
  return (← s.closeAll?).mark 3 token false

def openFlow? (s : Layout) (token : Token) : Option Layout := do
  let s ← s.noteKey?
  return { s.mark 1 token true with keyStart := none, outer := s.keyStart :: s.outer }

def closeFlow? (s : Layout) (token : Token) : Option Layout := do
  let s := (← s.dropKey?).mark 1 token false
  match s.outer with
  | [] => return s
  | keyStart :: outer => return { s with keyStart, outer }

/-- The mark of an item or of a key.  Outside brackets it opens a block if it is the first
one at its column. -/
def blockMark? (s : Layout) (start token : Token) (keyAllowed : Bool) : Option Layout := do
  if !s.inFlow && !s.keyAllowed then none
  let s ← (s.openBlock s.cursor.column s.tokens.size start).dropKey?
  return s.mark 1 token keyAllowed

/-- The colon of an entry.  It makes a key of what started at the key start, or belongs to
a key that was marked as one. -/
def colon? (s : Layout) : Option Layout :=
  match s.keyStart with
  | some start =>
    let s := { s with
      keyStart := none
      tokens := s.tokens.insertIdxIfInBounds start.position .key }
    some ((s.openBlock start.column start.position .blockMapStart).mark 1 .value false)
  | none =>
    if s.inFlow then some (s.mark 1 .value false)
    else if s.keyAllowed then
      some ((s.openBlock s.cursor.column s.tokens.size .blockMapStart).mark 1 .value true)
    else none

/-- A token that may start a key, as it is read from the cursor. -/
def leaf? (s : Layout) (read : Cursor → Option (Token × Cursor)) : Option Layout := do
  let s ← s.noteKey?
  let (token, cursor) ← read s.cursor
  return { s.push token with cursor, keyAllowed := false }

def quotedToken? (quote : Char) (c : Cursor) : Option (Token × Cursor) :=
  (quoted? quote c).map fun (text, c) => (.scalar .quoted (String.ofList text), c)

/-- A key may start behind a plain scalar if a line ended there. -/
def plain? (s : Layout) : Option Layout := do
  let s ← s.noteKey?
  let (text, crossed, cursor) ← Yaml.plain? s.inFlow s.least s.cursor
  return { s.push (.scalar .plain (String.ofList text)) with cursor, keyAllowed := crossed }

def block? (s : Layout) (style : Style) : Option Layout := do
  let s ← s.dropKey?
  let (text, cursor) ← Yaml.block? (style = .folded) s.least s.cursor
  return { s.push (.scalar style (String.ofList text)) with cursor, keyAllowed := true }

def directive? (s : Layout) : Option Layout := do
  let s ← s.closeAll?
  let (directive, cursor) ← Yaml.directive? s.cursor
  return { s.push (.directive directive) with cursor, keyAllowed := false }

/-- The token that starts with a character, which `rest` follows. -/
def next? (s : Layout) (ch : Char) (rest : List Char) : Option Layout :=
  if s.cursor.column = 0 && ch = '%' then s.directive?
  else if s.cursor.atMarker '-' then s.marker? .documentStart
  else if s.cursor.atMarker '.' then s.marker? .documentEnd
  else if ch = '[' then s.openFlow? .flowListStart
  else if ch = '\x7b' then s.openFlow? .flowMapStart
  else if ch = ']' then s.closeFlow? .flowListEnd
  else if ch = '\x7d' then s.closeFlow? .flowMapEnd
  else if ch = ',' then do return (← s.dropKey?).mark 1 .comma true
  else if ch = '-' && startsBlank rest then s.blockMark? .blockListStart .item true
  else if ch = '?' && (s.inFlow || startsBlank rest) then
    s.blockMark? .blockMapStart .key (!s.inFlow)
  else if ch = ':' && (s.inFlow || startsBlank rest) then s.colon?
  else if ch = '*' then
    s.leaf? fun c => (anchorName? c).map fun (name, c) => (.reference name, c)
  else if ch = '&' then s.leaf? fun c => (anchorName? c).map fun (name, c) => (.anchor name, c)
  else if ch = '!' then s.leaf? fun c => (tag? s.inFlow c).map fun (tag, c) => (.tag tag, c)
  else if ch = '|' && !s.inFlow then s.block? .literal
  else if ch = '>' && !s.inFlow then s.block? .folded
  else if ch = '\'' || ch = '"' then s.leaf? (quotedToken? ch)
  else if startsPlain s.inFlow (ch :: rest) then s.plain?
  else none

/-- The tokens from the cursor on.  Each takes a character, so the length of the text
bounds their number. -/
def tokensFrom : (fuel : Nat) → Layout → Option (Array Token)
  | 0, _ => none
  | fuel + 1, s => do
    let s ← s.skip.expireKeys?
    let s := s.closeBlocks (s.cursor.column < ·)
    match s.cursor.rest with
    | [] => return (← s.closeAll?).tokens
    | ch :: rest => tokensFrom fuel (← s.next? ch rest)

end Layout

/-- The tokens of a text.  A closing mark is put at the end of every open block. -/
def tokens? (text : List Char) : Option (List Token) :=
  if text.all isAllowed then
    (Layout.tokensFrom (text.length + 1) { cursor := { rest := text } }).map Array.toList
  else none

end Yaml
end Schematic
