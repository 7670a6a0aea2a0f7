import Schematic.Yaml.Cursor

/-!
# Scalars of YAML

A scalar is plain, stands in quotes, or is a block of lines.  Plain and quoted scalars
may run over several lines, whose breaks are folded.  The lines of a block are kept or
folded, as the mark before it says.
-/

namespace Schematic
namespace Yaml

inductive Style where
  | plain
  | quoted
  | literal
  | folded
deriving DecidableEq, Repr

/-! ## Plain scalars -/

/-- Characters that no plain scalar starts with. -/
def indicators : List Char :=
  ['-', '?', ':', ',', '[', ']', '\x7b', '\x7d', '#', '&', '*', '!', '|', '>', '\'', '"', '%',
    '@', '\x60']

/-- Whether a plain scalar starts here.  A dash may start one before anything but a blank,
a question mark or a colon only outside brackets. -/
def startsPlain (flow : Bool) : List Char → Bool
  | [] => false
  | c :: rest =>
    if c = '-' then !startsBlank rest
    else if c = '?' || c = ':' then !flow && !startsBlank rest
    else !startsBlank [c] && !indicators.contains c

/-- The word of a plain scalar that comes next.  Inside brackets no colon stands right
before a mark. -/
def plainWord? (flow : Bool) : List Char → Option (List Char)
  | [] => some []
  | c :: rest =>
    if isSpace c || isBreak c then some []
    else if flow && c = ':' && rest.head?.any (fun d => isFlowMark d || d = '?') then none
    else if (c = ':' && startsBlank rest) || (flow && isFlowMark c) then some []
    else (plainWord? flow rest).map (c :: ·)

/-- A plain scalar from its next word on, and whether a line ended behind it.  `taken` is
what was read before, latest first. -/
def plainFrom (flow : Bool) (least : Nat) : (fuel : Nat) → (taken : List Char) → Gap → Cursor →
    Option (List Char × Bool × Cursor)
  | 0, taken, gap, c => some (taken.reverse, gap.crossesLine, c)
  | fuel + 1, taken, gap, c =>
    if c.atAnyMarker || c.isAt (· = '#') then some (taken.reverse, gap.crossesLine, c)
    else do
      let word ← plainWord? flow c.rest
      let c := c.advance word.length
      let taken := if word.isEmpty then taken else word.reverse ++ gap.text.reverse ++ taken
      let gap := if word.isEmpty then gap else .spaces []
      if c.isAt fun ch => isSpace ch || isBreak ch then
        let (gap, c) ← Gap.pass least fuel gap c
        if !flow && c.column < least then return (taken.reverse, gap.crossesLine, c)
        else plainFrom flow least fuel taken gap c
      else return (taken.reverse, gap.crossesLine, c)

/-- A plain scalar.  Outside brackets it goes on in lines that start at column `least` or
further right. -/
def plain? (flow : Bool) (least : Nat) (c : Cursor) : Option (List Char × Bool × Cursor) :=
  plainFrom flow least (c.rest.length + 1) [] (.spaces []) c

/-! ## Quoted scalars -/

/-- The character that an escape of one letter stands for. -/
def letterEscape? (c : Char) : Option Char :=
  ([('0', 0x00), ('a', 0x07), ('b', 0x08), ('t', 0x09), ('\t', 0x09), ('n', 0x0A), ('v', 0x0B),
    ('f', 0x0C), ('r', 0x0D), ('e', 0x1B), (' ', 0x20), ('"', 0x22), ('/', 0x2F), ('\\', 0x5C),
    ('N', 0x85), ('_', 0xA0), ('L', 0x2028), ('P', 0x2029)].lookup c).map Char.ofNat

/-- The character with a code in hexadecimal digits. -/
def coded? (digits : List Char) : Option Char := do
  let values ← digits.mapM hexDigit?
  let code := values.foldl (fun n d => n * 16 + d) 0
  if code.isValidChar then return Char.ofNat code else none

/-- What an escape stands for, and how many characters it takes behind its backslash. -/
def escape? : List Char → Option (Char × Nat)
  | [] => none
  | c :: rest =>
    match [('x', 2), ('u', 4), ('U', 8)].lookup c with
    | none => (letterEscape? c).map fun ch => (ch, 1)
    | some width =>
      let digits := rest.take width
      if digits.length = width then (coded? digits).map fun ch => (ch, width + 1) else none

/-- The word of a quoted scalar that comes next, and whether an escaped line break ends
it.  A single quote inside single quotes is written twice. -/
def quotedWord? (quote : Char) : (fuel : Nat) → Cursor → Option (List Char × Bool × Cursor)
  | 0, c => some ([], false, c)
  | fuel + 1, c =>
    match c.rest with
    | [] => some ([], false, c)
    | ch :: rest =>
      let more (ch : Char) (n : Nat) := do
        let (word, joined, c) ← quotedWord? quote fuel (c.advance n)
        return (ch :: word, joined, c)
      if isSpace ch || isBreak ch then some ([], false, c)
      else if ch = quote then
        if quote = '\'' && rest.head? = some '\'' then more '\'' 2 else some ([], false, c)
      else if ch = '\\' && quote = '"' then
        if rest.head?.any isBreak then some ([], true, (c.advance 1).nextLine)
        else do
          let (ch, n) ← escape? rest
          more ch (n + 1)
      else more ch 1

/-- A quoted scalar up to its closing quote.  No document starts or ends inside it. -/
def quotedFrom (quote : Char) : (fuel : Nat) → (taken : List Char) → Cursor →
    Option (List Char × Cursor)
  | 0, _, _ => none
  | fuel + 1, taken, c =>
    if c.atAnyMarker || c.atEnd then none
    else do
      let (word, joined, c) ← quotedWord? quote fuel c
      let taken := word.reverse ++ taken
      if c.isAt (· = quote) then return (taken.reverse, c.advance 1)
      else
        let (gap, c) ← Gap.pass 0 fuel (if joined then .breaks [] [] else .spaces []) c
        quotedFrom quote fuel (gap.text.reverse ++ taken) c

/-- A quoted scalar, from its opening quote on. -/
def quoted? (quote : Char) (c : Cursor) : Option (List Char × Cursor) :=
  quotedFrom quote (c.rest.length + 1) [] (c.advance 1)

/-! ## Blocks of lines -/

/-- What becomes of the line breaks at the end of a block. -/
inductive Ending where
  | strip
  | clip
  | keep
deriving DecidableEq

def ending? (c : Cursor) : Option Ending :=
  match c.rest.head? with
  | some '-' => some .strip
  | some '+' => some .keep
  | _ => none

/-- By how many columns the lines of a block are indented, if that is said.  It is not
zero. -/
def indentation? (c : Cursor) : Option (Option Nat) :=
  match c.rest.head? with
  | some '0' => none
  | some ch => if ch.isDigit then some (some (ch.toNat - '0'.toNat)) else some none
  | none => some none

/-- The ending and the indentation of a block, in either order. -/
def blockHeader? (c : Cursor) : Option (Ending × Option Nat × Cursor) :=
  match ending? c with
  | some ending => do
    let c := c.advance 1
    let indentation ← indentation? c
    return (ending, indentation, c.advance (if indentation.isSome then 1 else 0))
  | none => do
    let indentation ← indentation? c
    if indentation.isSome then
      let c := c.advance 1
      match ending? c with
      | some ending => return (ending, indentation, c.advance 1)
      | none => return (.clip, indentation, c)
    else return (.clip, none, c)

/-- Passes over empty lines and the indentation of the next line, and tells how far right
the widest of them reaches.  No tab stands in the indentation. -/
def emptyLinesFrom (indent : Option Nat) : (fuel widest : Nat) → (breaks : List Char) → Cursor →
    Option (Nat × List Char × Cursor)
  | 0, widest, breaks, c => some (widest, breaks, c)
  | fuel + 1, widest, breaks, c =>
    let spaces := (c.run (· = ' ')).length
    let c := c.advance ((indent.map fun n => min spaces (n - c.column)).getD spaces)
    let widest := max widest c.column
    if c.isAt (· = '\t') && indent.all (c.column < ·) then none
    else if c.isAt isBreak then
      emptyLinesFrom indent fuel widest (breaks ++ c.breakText) c.nextLine
    else some (widest, breaks, c)

def emptyLines? (indent : Option Nat) (c : Cursor) : Option (Nat × List Char × Cursor) :=
  emptyLinesFrom indent (c.rest.length + 1) 0 [] c

/-- What is read of a block: the text so far, the break that ended its last line, and the
breaks of the empty lines behind that. -/
structure BlockText where
  text : List Char := []
  lastBreak : List Char := []
  emptyBreaks : List Char := []
  /-- Whether the last line starts with a blank. -/
  indented : Bool := false

namespace BlockText

/-- The text with one more line.  Between two lines that start with no blank a folded
break is a space, or nothing if empty lines stand between them. -/
def addLine (b : BlockText) (folds : Bool) (line lastBreak emptyBreaks : List Char) :
    BlockText :=
  let indented := line.head?.any isSpace
  let joint :=
    if folds && b.lastBreak = ['\n'] && !b.indented && !indented then
      if b.emptyBreaks.isEmpty then [' '] else []
    else b.lastBreak
  { text := b.text ++ joint ++ b.emptyBreaks ++ line, lastBreak, emptyBreaks, indented }

def close (b : BlockText) : Ending → List Char
  | .strip => b.text
  | .clip => b.text ++ b.lastBreak
  | .keep => b.text ++ b.lastBreak ++ b.emptyBreaks

end BlockText

/-- The lines of a block, which start at column `indent`. -/
def blockLines? (folds : Bool) (indent : Nat) : (fuel : Nat) → BlockText → Cursor →
    Option (BlockText × Cursor)
  | 0, b, c => some (b, c)
  | fuel + 1, b, c =>
    if c.column = indent && !c.atEnd then do
      let line := c.run fun ch => !isBreak ch
      let c := c.advance line.length
      let (_, breaks, next) ← emptyLines? (some indent) c.nextLine
      blockLines? folds indent fuel (b.addLine folds line c.breakText breaks) next
    else some (b, c)

/-- A block of lines, from its mark on.  `least` is the least column at which its lines
may start. -/
def block? (folds : Bool) (least : Nat) (c : Cursor) : Option (List Char × Cursor) := do
  let (ending, indentation, c) ← blockHeader? (c.advance 1)
  let c ← c.restOfLine?
  let indent := indentation.map (least - 1 + ·)
  let (widest, breaks, c) ← emptyLines? indent c
  let indent := indent.getD (max widest (max least 1))
  let (b, c) ← blockLines? folds indent (c.rest.length + 1) { emptyBreaks := breaks } c
  return (b.close ending, c)

end Yaml
end Schematic
