import Schematic.Conversion.FieldBody
import Schematic.Descriptor.Draft
import Schematic.FileName
import Schematic.Text.Basic
import Schematic.TypeRef

/-!
# Fields from properties

Each property gives one field or one error, whatever the other properties are.  A map
also gives a message for its entries, and every field the files that it needs.
-/

namespace Schematic

/-- What a document is converted with. -/
structure Conversion where
  /-- The path and the package of the document. -/
  path : String
  package : String
  scope : ImportScope
  /-- The types that the document declares, by name in their package. -/
  declared : Dict TypeRef
  resolver : Resolver

namespace Conversion

/-! ## Types -/

/-- The type that a name stands for: one of the document's own, a well-known one, or
one of another file. -/
def lookup (c : Conversion) (target : RefName) : Except ConvertError TypeRef :=
  let package := match target.package with
    | some qualifier => c.scope.expand qualifier
    | none => c.package
  let own := if package = c.package then c.declared.get? target.schema else none
  match own, WellKnown.type? package target.schema with
  | some found, _ => .ok found
  | none, some found => .ok found
  | none, none => (c.resolver package target.schema).mapError .unresolved

/-- The type of a single value, and what it brings along. -/
structure ValueType where
  code : Int
  typeName : Option String := none
  enum : Option Validation.EnumView := none
  imports : List String := []

def ValueType.message (found : TypeRef) : ValueType :=
  { code := FieldType.message, typeName := some found.dottedName, imports := [found.file] }

def builtin (c : Conversion) (target : RefName) : Except ConvertError ValueType := do
  let found ← c.lookup target
  return .message found

def messageType (c : Conversion) (property : String) (target : RefName) (expected : String) :
    Except ConvertError ValueType := do
  let found ← c.lookup target
  if found.kind.name = expected then return .message found
  else throw (.wrongKind property target.text expected found.kind.name)

def enumType (c : Conversion) (property : String) (target : RefName) :
    Except ConvertError ValueType := do
  let found ← c.lookup target
  match found.kind with
  | .enum table =>
    return { code := FieldType.enum, typeName := some found.dottedName
             enum := some ⟨found.fullName, table⟩, imports := [found.file] }
  | kind => throw (.wrongKind property target.text "enum" kind.name)

def integerType : IntegerFormat → Int
  | .int32 => FieldType.int32
  | .int64 => FieldType.int64
  | .uint32 => FieldType.uint32
  | .uint64 => FieldType.uint64

def floatType : FloatFormat → Int
  | .float32 => FieldType.float
  | .float64 => FieldType.double

def valueType (c : Conversion) (property : String) : FieldNode → Except ConvertError ValueType
  | .string _ => .ok { code := FieldType.string }
  | .key _ => .ok { code := FieldType.string }
  | .integer f => .ok { code := integerType f.format }
  | .float f => .ok { code := floatType f.format }
  | .bool _ => .ok { code := FieldType.bool }
  | .bytes _ => .ok { code := FieldType.bytes }
  | .decimal _ => c.builtin WellKnown.decimal
  | .date _ => c.builtin WellKnown.date
  | .timestamp _ => c.builtin WellKnown.timestamp
  | .any _ => c.builtin WellKnown.any
  | .enum target _ _ => c.enumType property target
  | .object target _ => c.messageType property target "object"
  | .oneof target => c.messageType property target "oneof"
  | .polymorph target => c.messageType property target "polymorph"
  | .array .. => .error (.nestedCollection property "property" "array")
  | .map .. => .error (.nestedCollection property "property" "map")

/-- The type of the items of a collection, which are no collections themselves. -/
def itemType (c : Conversion) (property outer : String) (items : FieldNode) :
    Except ConvertError ValueType :=
  match items with
  | .array .. => .error (.nestedCollection property outer "array")
  | .map .. => .error (.nestedCollection property outer "map")
  | items => c.valueType property items

/-! ## Fields -/

/-- How a property is laid out: its field so far, and the message of its entries if it
is a map. -/
structure Layout where
  field : FieldDescriptor
  entry : Option MessageDraft := none
  enum : Option Validation.EnumView := none
  imports : List String := []

def valueField (name : String) (number : Int) (value : ValueType) : FieldDescriptor :=
  { name := some name, jsonName := some name, number := some number, label := some FieldLabel.optional
    type := some value.code, typeName := value.typeName }

/-- The message of the entries of a map. -/
def mapEntry (name : String) (span : Span) (value : ValueType) : MessageDraft :=
  { name
    span
    fields := [⟨valueField "key" 1 { code := FieldType.string }, none, span⟩,
      ⟨valueField "value" 2 value, none, span⟩]
    options := some Options.forMapEntry }

/-- The layout of a property of the message with full name `message`. -/
def layout (c : Conversion) (message : String) (p : PropertyNode) : Except ConvertError Layout :=
  let field : FieldDescriptor :=
    { name := some (Case.snake p.name), jsonName := some p.name, number := some p.number }
  match p.field with
  | .array items _ _ =>
    if p.optional then .error (.optionalCollection p.name "array")
    else do
      let value ← c.itemType p.name "array" items
      return { field :=
                 { field with
                   type := some value.code, typeName := value.typeName
                   label := some FieldLabel.repeated }
               enum := value.enum, imports := value.imports }
  | .map items _ =>
    if p.optional then .error (.optionalCollection p.name "map")
    else do
      let value ← c.itemType p.name "map" items
      let entry := FileName.mapEntry (Case.snake p.name)
      return { field :=
                 { field with
                   type := some FieldType.message, typeName := some ("." ++ message ++ "." ++ entry)
                   label := some FieldLabel.repeated }
               entry := some (mapEntry entry p.span value)
               enum := value.enum, imports := value.imports }
  | single => do
    let value ← c.valueType p.name single
    return { field :=
               { field with
                 type := some value.code, typeName := value.typeName
                 label := some FieldLabel.optional }
             enum := value.enum, imports := value.imports }

/-- What a property adds to its message. -/
structure FieldPart where
  field : FieldDescriptor
  entry : Option MessageDraft := none
  /-- Whether the field gets a oneof of its own. -/
  synthetic : Bool := false
  imports : List String := []

/-- The options of a field, with the files that declare them. -/
def fieldOptions (p : PropertyNode) (enum : Option Validation.EnumView) :
    Except ConvertError (Options × List String) := do
  let validation ← Validation.body p.name p.required enum p.field
  let listing ← Listing.body? enum p.field
  let used := (Extension.field, p.field.kindBody) ::
    (if validation.isEmpty then [] else [(Extension.validation, validation)]) ++
    (listing.map fun body => (Extension.listing, body)).toList
  return ({ uninterpreted := used.map fun (e, body) => e.option body }, used.map fun (e, _) => e.file)

/-- The part of a property of the message with full name `message`.  If the property
is a branch, `oneof` is the index of the oneof. -/
def property (c : Conversion) (message : String) (oneof : Option Int) (p : PropertyNode) :
    Except ConvertError FieldPart :=
  if p.required && p.optional then .error (.requiredAndOptional p.name)
  else do
    let layout ← c.layout message p
    let (options, files) ← fieldOptions p layout.enum
    let synthetic := oneof.isNone && p.optional && layout.field.type ≠ some FieldType.message
    return { field :=
               { layout.field with
                 options := some options
                 oneofIndex := oneof
                 proto3Optional := if synthetic then some true else none }
             entry := layout.entry
             synthetic
             imports := layout.imports ++ files }

end Conversion
end Schematic
