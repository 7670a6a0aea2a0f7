import Schematic.Json.Fields
import Schematic.Json.Reader

/-!
# Reading a text against a shape

A shape says what a text must hold.  Reading against it stops at the first byte at which
the text cannot go on, be it that the text breaks there or that it holds something else.
What a record does not know is only skipped.

Where a value is of the wrong kind, the place is behind it, or before it if it is in
brackets.  Where a record as a whole is wrong, the place is behind its closing bracket, or
where that is missed.
-/

namespace Schematic
namespace Json

inductive Shape where
  | text
  | uint32
  | nullable (item : Shape)
  | list (item : Shape)
  /-- Each field with its name and whether it may be missing. -/
  | record (fields : List (String × Bool × Shape))
  /-- A value that says under a key which of several kinds it is.  It is read as a whole
  before it is accepted. -/
  | tagged (key : String) (tags : List String) (accepts : Json → Bool)

namespace Shape

/-- Whether a value that was read against a shape is what it seems. -/
def accepts : Shape → Json → Bool
  | .tagged _ _ accepts, value => accepts value
  | _, _ => true

/-! ## Where a reading stumbles -/

/-- The place behind a value of the wrong kind. -/
def mistyped (c : Cursor) : Mark :=
  match c.rest with
  | 91 :: _ => c.mark
  | 123 :: _ => c.mark
  | _ =>
    match readValue (c.rest.length + 2) 0 c with
    | .ok (_, c) => c.mark
    | .error mark => mark

/-- The place at which an object ends that is wrong as a whole. -/
def endOfObject (c : Cursor) : Mark :=
  let c := c.pastBlanks
  if c.rest.head? = some 125 then c.advance.mark else c.mark

/-- The place at which an array ends that is wrong as a whole.  A comma is taken for the
end of what was wrong. -/
def endOfArray (c : Cursor) : Mark :=
  let c := c.pastBlanks
  match c.rest with
  | 93 :: _ => c.advance.mark
  | 44 :: _ => c.advance.pastBlanks.mark
  | _ => c.mark

/-- Closes an array in which no further item is expected. -/
def closeArray (c : Cursor) : Except Mark Cursor :=
  let c := c.pastBlanks
  match c.rest with
  | 93 :: _ => .ok c.advance
  | 44 :: _ => .error c.advance.pastBlanks.offence
  | _ => .error c.offence

/-- The tag of a value. -/
def readTag (fuel : Nat) (tags : List String) (c : Cursor) : Except Mark (Json × Cursor) := do
  let c := c.pastBlanks
  if c.rest.head? = some 34 then
    let (name, c) ← scanString fuel c.advance
    if tags.contains name then return (.string name, c) else throw c.mark
  else throw (mistyped c)

def readUInt32 (c : Cursor) : Except Mark (Json × Cursor) := do
  if c.rest.head?.any startsNumber then
    let (value, c) ← scanNumber c
    if (integer uint32? (.number value)).isSome then return (.number value, c) else throw c.mark
  else throw (mistyped c)

/-- The bracket that an array or an object starts with, if there is room for one. -/
def enter (room : Nat) (c : Cursor) : Except Mark Cursor :=
  if room = 0 then .error c.offence else .ok c.advance

/-! ## Reading -/

mutual

/-- A value of a shape, without the members that its records do not know. -/
def read : (fuel room : Nat) → Shape → Cursor → Except Mark (Json × Cursor)
  | 0, _, _, c => .error c.mark
  | fuel + 1, room, shape, c => do
    let c := c.pastBlanks
    match shape, c.rest with
    | _, [] => .error c.mark
    | .text, 34 :: _ =>
      let (value, c) ← scanString fuel c.advance
      return (.string value, c)
    | .uint32, _ => readUInt32 c
    | .nullable _, 110 :: _ => return (.null, ← scanWord [117, 108, 108] c.advance)
    | .nullable item, _ => read fuel room item c
    | .list item, 91 :: _ =>
      let (items, c) ← readList fuel (room - 1) item true (← enter room c)
      return (.array items, c)
    | .record fields, 91 :: _ =>
      let (items, c) ← readInOrder fuel (room - 1) fields true (← enter room c)
      return (.array items, c)
    | .record fields, 123 :: _ =>
      let (members, c) ← readByName fuel (room - 1) fields [] true (← enter room c)
      return (.object members, c)
    | .tagged _ tags _, 91 :: _ =>
      let (more, c) ← nextItem true (← enter room c)
      if more then
        let (tag, c) ← readTag fuel tags c
        let (items, c) ← readItems fuel (room - 1) false c
        return (.array (tag :: items), c)
      else throw c.advance.mark
    | .tagged key tags _, 123 :: _ =>
      let (members, c) ← readTagged fuel (room - 1) key tags false true (← enter room c)
      return (.object members, c)
    | _, _ => throw (mistyped c)

/-- The items of a list. -/
def readList : (fuel room : Nat) → Shape → (first : Bool) → Cursor →
    Except Mark (List Json × Cursor)
  | 0, _, _, _, c => .error c.mark
  | fuel + 1, room, item, first, c => do
    let (more, c) ← nextItem first c
    if more then
      let (value, c) ← read fuel room item c
      if !item.accepts value then throw (endOfArray c)
      let (items, c) ← readList fuel room item false c
      return (value :: items, c)
    else return ([], c.advance)

/-- The fields of a record in their order.  The last ones may be left out if they may be
missing. -/
def readInOrder : (fuel room : Nat) → List (String × Bool × Shape) → (first : Bool) → Cursor →
    Except Mark (List Json × Cursor)
  | 0, _, _, _, c => .error c.mark
  | _ + 1, _, [], _, c => return ([], ← closeArray c)
  | fuel + 1, room, (name, mayMiss, shape) :: fields, first, c => do
    let (more, c) ← nextItem first c
    if more then
      let (value, c) ← read fuel room shape c
      let (items, c) ← readInOrder fuel room fields false c
      return (value :: items, c)
    else if ((name, mayMiss, shape) :: fields).all fun field => field.2.1 then
      return ([], c.advance)
    else throw c.advance.mark

/-- The fields of a record by their names.  `seen` holds the names before. -/
def readByName : (fuel room : Nat) → List (String × Bool × Shape) → (seen : List String) →
    (first : Bool) → Cursor → Except Mark (List (String × Json) × Cursor)
  | 0, _, _, _, _, c => .error c.mark
  | fuel + 1, room, fields, seen, first, c => do
    let (more, c) ← nextKey first c
    if more then
      let (key, c) ← scanString fuel c
      match fields.lookup key with
      | none => readByName fuel room fields seen false (← skipValue fuel (← pastColon c))
      | some (_, shape) =>
        if seen.contains key then throw (endOfObject c)
        let (value, c) ← read fuel room shape (← pastColon c)
        let (members, c) ← readByName fuel room fields (key :: seen) false c
        return ((key, value) :: members, c)
    else if fields.all fun field => field.2.1 || seen.contains field.1 then
      return ([], c.advance)
    else throw c.advance.mark

/-- The members of a tagged value.  The tag is `found` at most once. -/
def readTagged : (fuel room : Nat) → (key : String) → (tags : List String) →
    (found first : Bool) → Cursor → Except Mark (List (String × Json) × Cursor)
  | 0, _, _, _, _, _, c => .error c.mark
  | fuel + 1, room, key, tags, found, first, c => do
    let (more, c) ← nextKey first c
    if more then
      let (name, c) ← scanString fuel c
      if name = key then
        if found then throw (endOfObject c)
        let (tag, c) ← readTag fuel tags (← pastColon c)
        let (members, c) ← readTagged fuel room key tags true false c
        return ((name, tag) :: members, c)
      else
        let (value, c) ← readValue fuel room (← pastColon c)
        let (members, c) ← readTagged fuel room key tags found false c
        return ((name, value) :: members, c)
    else if found then return ([], c.advance)
    else throw c.advance.mark

end

/-- The value of a text that has a shape. -/
def readText (limit : Nat) (shape : Shape) (text : String) : Except Mark Json :=
  readWhole (fun fuel c => read fuel limit shape c) text

end Shape
end Json
end Schematic
