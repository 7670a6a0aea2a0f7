/-!
# Text

Paths and dotted names are lists of segments.  `pieces` cuts at every separator,
`cutLast?` at the last one, and `join` undoes the first.  The list versions carry
the meaning, the versions on `String` are what the rest of the library calls.

Schemas are named in `UpperCamel` and properties in `lowerCamel`; fields are
`snake_case` and enum values `UPPER_SNAKE`.  All four conversions know ASCII
letters only and leave every other character as it is.
-/

namespace Schematic
namespace Text

/-! ## Cutting at a separator -/

/-- The segments between separators.  There is always at least one, and `n`
separators give `n + 1`. -/
def piecesList (sep : Char) : List Char → List (List Char)
  | [] => [[]]
  | c :: rest =>
    if c = sep then [] :: piecesList sep rest
    else
      match piecesList sep rest with
      | [] => [[c]]
      | piece :: others => (c :: piece) :: others

/-- What stands before and after the last separator. -/
def cutLastList? (sep : Char) : List Char → Option (List Char × List Char)
  | [] => none
  | c :: rest =>
    match cutLastList? sep rest with
    | some (before, after) => some (c :: before, after)
    | none => if c = sep then some ([], rest) else none

/-- What stands before and after the first separator. -/
def cutFirstList? (sep : Char) : List Char → Option (List Char × List Char)
  | [] => none
  | c :: rest =>
    if c = sep then some ([], rest)
    else (cutFirstList? sep rest).map fun (before, after) => (c :: before, after)

/-- What is left of `s` once `ending` is taken off its end. -/
def withoutEndingList? (ending s : List Char) : Option (List Char) :=
  if ending.isSuffixOf s then some (s.take (s.length - ending.length)) else none

/-- What is left of `s` once `start` is taken off its front. -/
def withoutStartList? : List Char → List Char → Option (List Char)
  | [], s => some s
  | _ :: _, [] => none
  | c :: start, d :: s => if c = d then withoutStartList? start s else none

def pieces (sep : Char) (s : String) : List String :=
  (piecesList sep s.toList).map String.ofList

def cutLast? (sep : Char) (s : String) : Option (String × String) :=
  (cutLastList? sep s.toList).map fun (before, after) => (String.ofList before, String.ofList after)

def cutFirst? (sep : Char) (s : String) : Option (String × String) :=
  (cutFirstList? sep s.toList).map fun (before, after) => (String.ofList before, String.ofList after)

def withoutEnding? (ending s : String) : Option String :=
  (withoutEndingList? ending.toList s.toList).map String.ofList

def withoutStart? (start s : String) : Option String :=
  (withoutStartList? start.toList s.toList).map String.ofList

def startsWith (start s : String) : Bool :=
  (withoutStartList? start.toList s.toList).isSome

def endsWith (ending s : String) : Bool :=
  ending.toList.isSuffixOf s.toList

/-- The segments with the separator between each two. -/
def join (sep : String) : List String → String
  | [] => ""
  | [piece] => piece
  | piece :: others => piece ++ sep ++ join sep others

/-- `s` without the separators it starts with. -/
def withoutLeading (sep : Char) (s : String) : String :=
  String.ofList (s.toList.dropWhile (· == sep))

/-- `s` without any `sep` at its end. -/
def withoutTrailing (sep : Char) (s : String) : String :=
  String.ofList (s.toList.reverse.dropWhile (· == sep)).reverse

/-- `s` with every `old` written as `new`. -/
def replace (old : Char) (new : String) (s : String) : String :=
  String.ofList (s.toList.flatMap fun c => if c = old then new.toList else [c])

/-- `text` at the right of a field of `width` characters. -/
def alignRight (width : Nat) (text : String) : String :=
  String.ofList (List.replicate (width - text.length) ' ') ++ text

/-! ## Blank text -/

/-- The characters with the Unicode property White_Space. -/
def isBlankChar (c : Char) : Bool :=
  let n := c.toNat
  (0x9 ≤ n && n ≤ 0xD) || n = 0x20 || n = 0x85 || n = 0xA0 || n = 0x1680 ||
    (0x2000 ≤ n && n ≤ 0x200A) || n = 0x2028 || n = 0x2029 || n = 0x202F || n = 0x205F || n = 0x3000

def isBlank (s : String) : Bool :=
  s.toList.all isBlankChar

def trimList (s : List Char) : List Char :=
  ((s.dropWhile isBlankChar).reverse.dropWhile isBlankChar).reverse

/-- `s` without the blank characters at its ends. -/
def trim (s : String) : String :=
  String.ofList (trimList s.toList)

def trimEndList (s : List Char) : List Char :=
  (s.reverse.dropWhile isBlankChar).reverse

def trimEnd (s : String) : String :=
  String.ofList (trimEndList s.toList)

/-! ## Lines

A line ends with a newline, or a carriage return and a newline, or the text.  A text
that ends with a newline has no empty line behind it. -/

/-- The lines, each with the characters before its newline, and what follows the
last newline. -/
def linesList : List Char → List (List Char) × List Char
  | [] => ([], [])
  | c :: rest =>
    let (lines, last) := linesList rest
    if c = '\n' then ([] :: lines, last)
    else
      match lines with
      | [] => ([], c :: last)
      | line :: others => ((c :: line) :: others, last)

def withoutReturn (line : List Char) : List Char :=
  match line.reverse with
  | '\r' :: rest => rest.reverse
  | _ => line

def lines (s : String) : List String :=
  let (ended, last) := linesList s.toList
  (ended.map withoutReturn ++ if last.isEmpty then [] else [last]).map String.ofList

end Text

/-! ## Letter case of identifiers -/

namespace Case

/-- Whether a word starts at a capital, told from its two neighbours.  A capital
after a small letter or a digit starts a word.  In a run of capitals only the last
one does, and only when a small letter follows it. -/
def startsWord (previous next : Option Char) : Bool :=
  match previous with
  | none => false
  | some p =>
    if p.isLower || p.isDigit then true
    else if p.isUpper then next.any Char.isLower
    else false

def snakeFrom (previous : Option Char) : List Char → List Char
  | [] => []
  | c :: rest =>
    if c.isUpper then
      if startsWord previous rest.head? then '_' :: c.toLower :: snakeFrom (some c) rest
      else c.toLower :: snakeFrom (some c) rest
    else c :: snakeFrom (some c) rest

/-- Drops underscores and raises the letter after each.  `raise` says whether the
next letter is to be raised. -/
def camelFrom : (raise : Bool) → List Char → List Char
  | _, [] => []
  | raise, c :: rest =>
    if c = '_' then camelFrom true rest
    else (if raise then c.toUpper else c) :: camelFrom false rest

def lowerFirst : List Char → List Char
  | [] => []
  | c :: rest => c.toLower :: rest

/-- `fooBarID` gives `foo_bar_id`. -/
def snake (name : String) : String :=
  String.ofList (snakeFrom none name.toList)

/-- `fooBarID` gives `FOO_BAR_ID`. -/
def upperSnake (name : String) : String :=
  String.ofList ((snakeFrom none name.toList).map Char.toUpper)

/-- `foo_bar` gives `FooBar`.  Capitals already there are kept. -/
def upperCamel (name : String) : String :=
  String.ofList (camelFrom true name.toList)

/-- `foo_bar` gives `fooBar`. -/
def lowerCamel (name : String) : String :=
  String.ofList (lowerFirst (camelFrom true name.toList))

end Case
end Schematic
