import Schematic.Real.Decimal
import Schematic.Text.Basic

/-!
# Option bodies

The body of a custom option is a list of named values.  It is written in one line:
`string { min_len: 1 pattern: "^a" }`.  A message stands behind its name without a
colon, and an empty one is written `{}`.
-/

namespace Schematic

inductive OptionValue where
  | bool (b : Bool)
  | int (i : Int)
  | uint (n : Nat)
  | real (x : Binary64)
  | string (s : String)
  /-- The name of an enum value, written without quotes. -/
  | ident (name : String)
  | message (fields : List (String × OptionValue))
  | list (items : List OptionValue)
deriving Inhabited

abbrev OptionBody := List (String × OptionValue)

namespace OptionValue

/-- A character inside quotes. -/
def escape (c : Char) : List Char :=
  match c with
  | '"' => ['\\', '"']
  | '\\' => ['\\', '\\']
  | '\n' => ['\\', 'n']
  | '\r' => ['\\', 'r']
  | '\t' => ['\\', 't']
  | c => [c]

def quote (s : String) : String :=
  String.ofList (['"'] ++ s.toList.flatMap escape ++ ['"'])

/-- What stands between a name and its value. -/
def separator : OptionValue → String
  | .message _ => " "
  | _ => ": "

mutual

def text : OptionValue → String
  | .bool b => if b then "true" else "false"
  | .int i => toString i
  | .uint n => toString n
  | .real x => x.text
  | .string s => quote s
  | .ident name => name
  | .message [] => "\x7b\x7d"
  | .message (f :: fs) => "\x7b " ++ Text.join " " (fieldTexts (f :: fs)) ++ " \x7d"
  | .list items => "[" ++ Text.join ", " (itemTexts items) ++ "]"

def fieldTexts : List (String × OptionValue) → List String
  | [] => []
  | (name, value) :: rest => (name ++ value.separator ++ value.text) :: fieldTexts rest

def itemTexts : List OptionValue → List String
  | [] => []
  | item :: rest => item.text :: itemTexts rest

end

end OptionValue

namespace OptionBody

def text (body : OptionBody) : String :=
  Text.join " " (OptionValue.fieldTexts body)

/-! ## Fields that are present only at need -/

/-- A flag, left out when it is not set. -/
def flag (name : String) (b : Bool) : OptionBody :=
  if b then [(name, .bool true)] else []

def opt {α : Type} (name : String) (value : α → OptionValue) : Option α → OptionBody
  | none => []
  | some a => [(name, value a)]

end OptionBody

/-! ## Custom options

The custom options that generated files carry, each with the file that declares it. -/

/-- What options can be set on, each with an options message of its own. -/
inductive OptionLevel where
  | file | message | field | oneof | enum | enumValue | service | method
deriving DecidableEq, Repr

def OptionLevel.messageName : OptionLevel → String
  | .file => "FileOptions"
  | .message => "MessageOptions"
  | .field => "FieldOptions"
  | .oneof => "OneofOptions"
  | .enum => "EnumOptions"
  | .enumValue => "EnumValueOptions"
  | .service => "ServiceOptions"
  | .method => "MethodOptions"

/-- The full name of the options message, with its dot. -/
def OptionLevel.extendee (level : OptionLevel) : String :=
  ".google.protobuf." ++ level.messageName

structure Extension where
  /-- The full name, without a dot before it. -/
  name : String
  file : String
  level : OptionLevel
deriving DecidableEq, Repr

namespace Extension

def schemaFile : String := "j5/ext/v1/annotations.proto"

def field : Extension := ⟨"j5.ext.v1.field", schemaFile, .field⟩
def message : Extension := ⟨"j5.ext.v1.message", schemaFile, .message⟩
def enum : Extension := ⟨"j5.ext.v1.enum", schemaFile, .enum⟩
def service : Extension := ⟨"j5.ext.v1.service", schemaFile, .service⟩
def method : Extension := ⟨"j5.ext.v1.method", schemaFile, .method⟩
def validation : Extension := ⟨"buf.validate.field", "buf/validate/validate.proto", .field⟩
def listing : Extension := ⟨"j5.list.v1.field", "j5/list/v1/annotations.proto", .field⟩
def http : Extension := ⟨"google.api.http", "google/api/annotations.proto", .method⟩
def messaging : Extension :=
  ⟨"j5.messaging.v1.service", "j5/messaging/v1/annotations.proto", .service⟩

def all : List Extension :=
  [field, message, enum, service, method, validation, listing, http, messaging]

end Extension
end Schematic
