import Schematic.Yaml.Cursor

/-!
# Anchors, tags and directives

An anchor names a value, so that it can be referred to.  A tag says of which kind a value
is.  It is written out, or as a handle that stands for the start of a tag and the rest of
it.  Directives before a document give its version and further handles.
-/

namespace Schematic
namespace Yaml

/-! ## Anchors -/

/-- Characters other than blanks that may follow a name. -/
def isBehindName (c : Char) : Bool :=
  ['?', ':', ',', ']', '\x7d', '%', '@', '\x60'].contains c

/-- The name behind the mark of an anchor or of a reference. -/
def anchorName? (c : Cursor) : Option (String × Cursor) :=
  let c := c.advance 1
  let name := c.run isNameChar
  let c := c.advance name.length
  if name.isEmpty || !(startsBlank c.rest || c.isAt isBehindName) then none
  else some (String.ofList name, c)

/-! ## Tags -/

/-- A tag as it is written.  A tag that is written out has an empty handle. -/
structure TagText where
  handle : String
  rest : String
deriving DecidableEq, Repr

/-- Characters of tags.  Some flow marks stand only in tags that are written out. -/
def isTagChar (full : Bool) (c : Char) : Bool :=
  isNameChar c ||
    [';', '/', '?', ':', '@', '&', '=', '+', '$', '.', '%', '!', '~', '*', '\'', '(',
      ')'].contains c ||
    (full && [',', '[', ']'].contains c)

/-- How many octets a character takes, by the first of them. -/
def octets? (first : Nat) : Option Nat :=
  if first < 0x80 then some 1
  else if 0xC0 ≤ first && first < 0xE0 then some 2
  else if 0xE0 ≤ first && first < 0xF0 then some 3
  else if 0xF0 ≤ first && first < 0xF8 then some 4
  else none

/-- Resolves the octets that are written in hexadecimal digits, each to a character of
its own.  `due` is how many further octets the character at hand takes. -/
def resolveOctets : (due : Nat) → List Char → Option (List Char)
  | due, '%' :: a :: b :: rest => do
    let octet := (← hexDigit? a) * 16 + (← hexDigit? b)
    if due = 0 then
      let width ← octets? octet
      return Char.ofNat octet :: (← resolveOctets (width - 1) rest)
    else if 0x80 ≤ octet && octet < 0xC0 then
      return Char.ofNat octet :: (← resolveOctets (due - 1) rest)
    else none
  | 0, c :: rest => if c = '%' then none else (resolveOctets 0 rest).map (c :: ·)
  | 0, [] => some []
  | _ + 1, _ => none

/-- The characters of a tag that come next. -/
def tagChars? (full : Bool) (c : Cursor) : Option (List Char × Cursor) := do
  let written := c.run (isTagChar full)
  return (← resolveOctets 0 written, c.advance written.length)

/-- A handle: an exclamation mark, or a name between two of them.  Without the second it
is the start of a tag, and `false` says so. -/
def handle (c : Cursor) : List Char × Bool × Cursor :=
  let c := c.advance 1
  let name := c.run isNameChar
  let c := c.advance name.length
  if c.isAt (· = '!') then ('!' :: name ++ ['!'], true, c.advance 1)
  else ('!' :: name, false, c)

/-- A tag between angle brackets. -/
def fullTag? (c : Cursor) : Option (TagText × Cursor) := do
  let (chars, next) ← tagChars? true (c.advance 2)
  if chars.isEmpty || !next.isAt (· = '>') then none
  else return (⟨"", String.ofList chars⟩, next.advance 1)

/-- A tag with a handle.  A lone exclamation mark is a tag by itself. -/
def shortTag? (c : Cursor) : Option (TagText × Cursor) := do
  let (start, isHandle, next) := handle c
  let (chars, next) ← tagChars? false next
  if isHandle then
    if chars.isEmpty then none else return (⟨String.ofList start, String.ofList chars⟩, next)
  else
    let chars := start.drop 1 ++ chars
    if chars.isEmpty then return (⟨"", "!"⟩, next)
    else return (⟨"!", String.ofList chars⟩, next)

/-- A tag.  A blank follows it or, inside brackets, a comma. -/
def tag? (flow : Bool) (c : Cursor) : Option (TagText × Cursor) := do
  let (tag, c) ← if c.rest.drop 1 |>.head?.any (· = '<') then fullTag? c else shortTag? c
  if startsBlank c.rest || (flow && c.isAt (· = ',')) then return (tag, c) else none

/-- What a tag stands for, where handles stand for the starts of tags. -/
def TagText.resolve? (handles : List (String × String)) (tag : TagText) : Option String :=
  if tag.handle = "" then some tag.rest
  else (handles.lookup tag.handle).map (· ++ tag.rest)

/-- The handles that need no directive. -/
def standardHandles : List (String × String) :=
  [("!", "!"), ("!!", "tag:yaml.org,2002:")]

def nullTag : String := "tag:yaml.org,2002:null"

def intTag : String := "tag:yaml.org,2002:int"

/-! ## Directives -/

inductive Directive where
  | version (major minor : Nat)
  | handle (name start : String)
deriving DecidableEq, Repr

/-- A number of at most nine digits. -/
def directiveNumber? (c : Cursor) : Option (Nat × Cursor) :=
  let digits := c.run Char.isDigit
  if digits.isEmpty || 9 < digits.length then none
  else some (digits.foldl (fun n d => n * 10 + (d.toNat - '0'.toNat)) 0, c.advance digits.length)

def versionDirective? (c : Cursor) : Option (Directive × Cursor) := do
  let (major, c) ← directiveNumber? (c.past isSpace)
  if !c.isAt (· = '.') then none
  let (minor, c) ← directiveNumber? (c.advance 1)
  return (.version major minor, c)

def handleDirective? (c : Cursor) : Option (Directive × Cursor) := do
  let c := c.past isSpace
  if !c.isAt (· = '!') then none
  let (name, isHandle, c) := handle c
  if !(isHandle || name = ['!']) || !c.isAt isSpace then none
  let (start, c) ← tagChars? true (c.past isSpace)
  if start.isEmpty || !startsBlank c.rest then none
  return (.handle (String.ofList name) (String.ofList start), c)

/-- A directive, from its mark to the end of its line or the comment there. -/
def directive? (c : Cursor) : Option (Directive × Cursor) := do
  let c := c.advance 1
  let name := c.run isNameChar
  let c := c.advance name.length
  let (directive, c) ←
    if !startsBlank c.rest then none
    else if name = "YAML".toList then versionDirective? c
    else if name = "TAG".toList then handleDirective? c
    else none
  return (directive, ← c.restOfLine?)

end Yaml
end Schematic
