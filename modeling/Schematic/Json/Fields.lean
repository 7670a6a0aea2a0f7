import Schematic.Json.Basic

/-!
# Reading records and tagged values

A record is written as an object or, in the order of its fields, as an array.
`Fields` reads the fields of a record and knows their names.  Members with other names
are passed over, and no field is given twice.
-/

namespace Schematic
namespace Json

/-- Reads a value of some kind, if it is one. -/
abbrev Decoder (α : Type) := Json → Option α

/-! ## Plain values -/

def text : Decoder String
  | .string s => some s
  | _ => none

def flag : Decoder Bool
  | .bool b => some b
  | _ => none

/-- An integer that `inRange?` accepts. -/
def integer {α : Type} (inRange? : Int → Option α) : Decoder α
  | .number (.integer i) => inRange? i
  | _ => none

def uint32? (i : Int) : Option UInt32 :=
  if 0 ≤ i && i < Nat.pow 2 32 then some (UInt32.ofNat i.toNat) else none

def uint64? (i : Int) : Option UInt64 :=
  if 0 ≤ i && i < Nat.pow 2 64 then some (UInt64.ofNat i.toNat) else none

def int32? (i : Int) : Option Int32 :=
  if -(Nat.pow 2 31 : Int) ≤ i && i < Nat.pow 2 31 then some (Int32.ofInt i) else none

def int64? (i : Int) : Option Int64 :=
  if -(Nat.pow 2 63 : Int) ≤ i && i < Nat.pow 2 63 then some (Int64.ofInt i) else none

/-- An integer is taken as the nearest double. -/
def real : Decoder Binary64
  | .number (.real x) => some x
  | .number (.integer i) => some (.ofInt i)
  | _ => none

def nullable {α : Type} (item : Decoder α) : Decoder (Option α)
  | .null => some none
  | j => (item j).map some

def decodeAll {α : Type} (item : Decoder α) : List Json → Option (List α)
  | [] => some []
  | j :: rest => do
    let a ← item j
    let others ← decodeAll item rest
    return a :: others

def list {α : Type} (item : Decoder α) : Decoder (List α)
  | .array items => decodeAll item items
  | _ => none

/-- One of a list of named choices, by its name. -/
def choice {α : Type} (choices : List (String × α)) : Decoder α
  | .string name | .object [(name, .null)] | .object [(name, .object [])] => choices.lookup name
  | _ => none

/-! ## Records -/

/-- Reads some fields of a record. -/
structure Fields (α : Type) where
  names : List String
  read : List (String × Json) → Option α

namespace Fields

variable {α β : Type}

def const (a : α) : Fields α where
  names := []
  read _ := some a

/-- Reads one more field. -/
def and (f : Fields (α → β)) (a : Fields α) : Fields β where
  names := f.names ++ a.names
  read members := do
    let g ← f.read members
    let x ← a.read members
    return g x

def ofMember (item : Decoder α) (missing : Option α) (name : String) : Fields α where
  names := [name]
  read members :=
    match members.lookup name with
    | none => missing
    | some value => item value

def required (name : String) (item : Decoder α) : Fields α :=
  ofMember item none name

/-- A field that may be left out. -/
def defaulted (name : String) (default : α) (item : Decoder α) : Fields α :=
  ofMember item (some default) name

/-- A field that may be left out or null. -/
def optional (name : String) (item : Decoder α) : Fields (Option α) :=
  defaulted name none (nullable item)

/-- Whether one of the names stands twice among the members. -/
def repeats (names : List String) : List (String × Json) → Bool
  | [] => false
  | (key, _) :: rest =>
    (names.contains key && rest.any fun member => member.1 = key) || repeats names rest

/-- Reads a record.  Items beyond the last field are refused. -/
def decode (fields : Fields α) : Decoder α
  | .object members => if repeats fields.names members then none else fields.read members
  | .array items =>
    if fields.names.length < items.length then none else fields.read (fields.names.zip items)
  | _ => none

end Fields

/-! ## Tagged values -/

/-- A tag: its name or, where the value around it has been read as a whole, its
number. -/
def tag {α : Type} (byNumber : Bool) (choices : List (String × α)) : Decoder α
  | .string name => choices.lookup name
  | .number (.integer (.ofNat n)) => if byNumber then choices[n]?.map Prod.snd else none
  | _ => none

/-- The tag among members, and the other members.  There is one tag. -/
def splitTag {α : Type} (key : String) (tagOf : Decoder α) : (found : Option α) →
    List (String × Json) → Option (α × List (String × Json))
  | none, [] => none
  | some a, [] => some (a, [])
  | found, (name, value) :: rest =>
    if name = key then
      match found with
      | some _ => none
      | none => do
        let a ← tagOf value
        splitTag key tagOf (some a) rest
    else do
      let (a, others) ← splitTag key tagOf found rest
      return (a, (name, value) :: others)

/-- Reads a value that says under `key` which of several kinds it is.  The tag may
stand anywhere in an object, and first in an array. -/
def tagged {α : Type} (byNumber : Bool) (key : String) (kinds : List (String × Decoder α)) :
    Decoder α
  | .object members => do
    let (content, others) ← splitTag key (tag byNumber kinds) none members
    content (.object others)
  | .array (first :: rest) => do
    let content ← tag byNumber kinds first
    content (.array rest)
  | _ => none

/-- A kind that carries nothing. -/
def bare {α : Type} (a : α) : Decoder α
  | .object _ => some a
  | .array [] => some a
  | _ => none

end Json
end Schematic
