import Schematic.Yaml.Token

/-!
# YAML values

One document of maps, lists and scalars.  A reference is replaced by the value that its
anchor names.  Where no value is written, an empty plain scalar stands.
-/

namespace Schematic

inductive Yaml where
  | scalar (style : Yaml.Style) (tag : Option String) (text : String)
  | list (items : List Yaml)
  | map (entries : List (Yaml × Yaml))
deriving Inhabited

namespace Yaml

/-- What stands where nothing is written. -/
def absent : Yaml := .scalar .plain none ""

/-- What is left to read, and what tags and references stand for. -/
structure Reading where
  tokens : List Token
  handles : List (String × String) := standardHandles
  /-- The anchors so far, each with its value once that is read. -/
  anchors : Array (String × Option Yaml) := #[]

/-- Reads values from tokens, or fails. -/
abbrev Reader := StateT Reading Option

def peek : Reader (Option Token) := do return (← get).tokens.head?

def pass : Reader Unit := modify fun r => { r with tokens := r.tokens.tail }

/-- Passes over a token if it comes next, and tells whether it did. -/
def passIf (token : Token) : Reader Bool := do
  if (← peek) = some token then
    pass
    return true
  else return false

/-- Passes over the comma that every part of a flow but the first has before it. -/
def passComma (first : Bool) : Reader Bool := if first then pure true else passIf .comma

/-- Whether one of some tokens comes next. -/
def isNext (tokens : List Token) : Reader Bool := do
  return (← peek).any tokens.contains

/-! ## Properties -/

def takeAnchor : Reader (Option String) := do
  match ← peek with
  | some (.anchor name) =>
    pass
    return some name
  | _ => return none

def takeTag : Reader (Option TagText) := do
  match ← peek with
  | some (.tag tag) =>
    pass
    return some tag
  | _ => return none

/-- An anchor and a tag, in either order. -/
def takeProperties : Reader (Option String × Option TagText) := do
  match ← takeAnchor with
  | some name => return (some name, ← takeTag)
  | none =>
    let tag ← takeTag
    return (← if tag.isSome then takeAnchor else pure none, tag)

def resolveTag (tag : TagText) : Reader String := do
  (tag.resolve? (← get).handles : Option String)

/-- The value of the last anchor of a name, which must have been read to its end. -/
def referTo (name : String) : Reader Yaml := do
  match (← get).anchors.toList.reverse.lookup name with
  | some (some value) => return value
  | _ => failure

/-- Reads a value and keeps it under an anchor.  References inside it find the anchor
without a value. -/
def keepAs (anchor : Option String) (value : Reader Yaml) : Reader Yaml := do
  match anchor with
  | none => value
  | some name =>
    let place := (← get).anchors.size
    modify fun r => { r with anchors := r.anchors.push (name, none) }
    let value ← value
    modify fun r => { r with anchors := r.anchors.setIfInBounds place (name, some value) }
    return value

/-! ## Values -/

mutual

/-- A value.  Blocks may start only if `block` holds.  If `undented` holds, so may a list
whose items stand at the column of the keys around it. -/
def node : (fuel : Nat) → (block undented : Bool) → Reader Yaml
  | 0, _, _ => failure
  | fuel + 1, block, undented => do
    match ← peek with
    | some (.reference name) =>
      pass
      referTo name
    | _ =>
      let (anchor, tagText) ← takeProperties
      let tag ← tagText.mapM resolveTag
      keepAs anchor (content fuel block undented tag (anchor.isSome || tagText.isSome))

/-- What stands behind the properties of a value.  That may be nothing if there are any.
A lone exclamation mark is no tag of a scalar. -/
def content : (fuel : Nat) → (block undented : Bool) → (tag : Option String) →
    (hasProperties : Bool) → Reader Yaml
  | 0, _, _, _, _ => failure
  | fuel + 1, block, undented, tag, hasProperties => do
    match ← peek, block, undented with
    | some .item, _, true => return .list (← undentedItems fuel)
    | some (.scalar style text), _, _ =>
      pass
      return .scalar style (if tag = some "!" then none else tag) text
    | some .flowListStart, _, _ =>
      pass
      return .list (← flowItems fuel true)
    | some .flowMapStart, _, _ =>
      pass
      return .map (← flowEntries fuel true)
    | some .blockListStart, true, _ =>
      pass
      return .list (← blockItems fuel)
    | some .blockMapStart, true, _ =>
      pass
      return .map (← blockEntries fuel)
    | _, _, _ => if hasProperties then return .scalar .plain tag "" else failure

/-- A value, or nothing before certain tokens. -/
def nodeUnless : (fuel : Nat) → (block undented : Bool) → List Token → Reader Yaml
  | 0, _, _, _ => failure
  | fuel + 1, block, undented, tokens => do
    if ← isNext tokens then return absent else node fuel block undented

def blockItems : (fuel : Nat) → Reader (List Yaml)
  | 0 => failure
  | fuel + 1 => do
    if ← passIf .item then
      let item ← nodeUnless fuel true false [.item, .blockEnd]
      return item :: (← blockItems fuel)
    else if ← passIf .blockEnd then return []
    else failure

def undentedItems : (fuel : Nat) → Reader (List Yaml)
  | 0 => failure
  | fuel + 1 => do
    if ← passIf .item then
      let item ← nodeUnless fuel true false [.item, .key, .value, .blockEnd]
      return item :: (← undentedItems fuel)
    else return []

def blockEntries : (fuel : Nat) → Reader (List (Yaml × Yaml))
  | 0 => failure
  | fuel + 1 => do
    if ← passIf .key then
      let key ← nodeUnless fuel true true [.key, .value, .blockEnd]
      let value ←
        if ← passIf .value then nodeUnless fuel true true [.key, .value, .blockEnd]
        else pure absent
      return (key, value) :: (← blockEntries fuel)
    else if ← passIf .blockEnd then return []
    else failure

/-- The items of a list up to its bracket.  An item may be a single entry of a map. -/
def flowItems : (fuel : Nat) → (first : Bool) → Reader (List Yaml)
  | 0, _ => failure
  | fuel + 1, first => do
    if ← passIf .flowListEnd then return []
    else if ← passComma first then
      if ← passIf .key then
        let key ← flowItemKey fuel
        let value ←
          if ← passIf .value then nodeUnless fuel false false [.comma, .flowListEnd]
          else pure absent
        return .map [(key, value)] :: (← flowItems fuel false)
      else if ← passIf .flowListEnd then return []
      else
        let item ← node fuel false false
        return item :: (← flowItems fuel false)
    else failure

/-- The key of an entry that is an item of a list.  The token in the place of a missing
key is passed over. -/
def flowItemKey : (fuel : Nat) → Reader Yaml
  | 0 => failure
  | fuel + 1 => do
    if ← isNext [.value, .comma, .flowListEnd] then
      pass
      return absent
    else node fuel false false

/-- The entries of a map up to its brace.  What is not marked as a key has no value. -/
def flowEntries : (fuel : Nat) → (first : Bool) → Reader (List (Yaml × Yaml))
  | 0, _ => failure
  | fuel + 1, first => do
    if ← passIf .flowMapEnd then return []
    else if ← passComma first then
      if ← passIf .key then
        let key ← nodeUnless fuel false false [.value, .comma, .flowMapEnd]
        let value ←
          if ← passIf .value then nodeUnless fuel false false [.comma, .flowMapEnd]
          else pure absent
        return (key, value) :: (← flowEntries fuel false)
      else if ← passIf .flowMapEnd then return []
      else
        let key ← node fuel false false
        return (key, absent) :: (← flowEntries fuel false)
    else failure

end

/-! ## Documents -/

/-- Takes the directives before a document.  A version and a handle are given at most
once, and only versions 1.1 and 1.2 are read. -/
def takeDirectives : (fuel : Nat) → (versioned : Bool) → (handles : List (String × String)) →
    Reader Unit
  | 0, _, _ => failure
  | fuel + 1, versioned, handles => do
    match ← peek with
    | some (.directive (.version major minor)) =>
      if versioned || major ≠ 1 || !(minor = 1 || minor = 2) then failure
      pass
      takeDirectives fuel true handles
    | some (.directive (.handle name start)) =>
      if (handles.lookup name).isSome then failure
      pass
      takeDirectives fuel versioned (handles ++ [(name, start)])
    | _ => modify fun r => { r with handles := handles ++ standardHandles }

/-- Whether a document starts with a mark. -/
def isMarked : Option Token → Bool
  | some (.directive _) => true
  | some .documentStart => true
  | _ => false

/-- A document without directives needs no mark.  A text without tokens is an absent
value. -/
def document (fuel : Nat) : Reader Yaml := do
  let first ← peek
  if first.isNone then return absent
  else if isMarked first then
    takeDirectives fuel false []
    if !(← passIf .documentStart) then failure
    let next ← peek
    if next.isNone || next = some .documentEnd || isMarked next then return absent
    else node fuel true false
  else node fuel true false

/-- The only value of a text. -/
def ofTokens? (tokens : List Token) : Option Yaml := do
  let fuel := 5 * tokens.length + 5
  let (value, r) ← document fuel |>.run { tokens }
  if r.tokens.all (· = .documentEnd) then return value else none

def read (text : String) : Option Yaml :=
  (tokens? text.toList).bind ofTokens?

end Yaml
end Schematic
