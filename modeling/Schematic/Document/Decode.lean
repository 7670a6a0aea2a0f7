import Schematic.Document.Basic
import Schematic.Json.Shape

/-!
# Documents from JSON

One reading per record, its fields in the order in which an array would list them.
Schemas nest, and the readings of what a schema may hold take the reading of inner
schemas as an argument.  `decodeSchema` ties the knot, going one level deeper at a
time up to the limit on nesting.
-/

namespace Schematic

open Json

def Position.fields : Fields Position :=
  (Fields.const Position.mk)
    |>.and (.required "line" (integer uint32?))
    |>.and (.required "column" (integer uint32?))

def Span.fields : Fields Span :=
  (Fields.const Span.mk)
    |>.and (.required "start" Position.fields.decode)
    |>.and (.required "end" Position.fields.decode)

namespace Decode

def spanField : Fields Span := .defaulted "span" {} Span.fields.decode
def nameField : Fields String := .required "name" text
def descriptionField : Fields (Option String) := .optional "description" text
def texts (key : String) : Fields (List String) := .defaulted key [] (list text)
def off (key : String) : Fields Bool := .defaulted key false flag
def size (key : String) : Fields (Option UInt64) := .optional key (integer uint64?)

end Decode

open Decode

def RefName.fields : Fields RefName :=
  (Fields.const RefName.mk)
    |>.and (.optional "package" Json.text)
    |>.and (.required "schema" Json.text)

/-- An object with one member, which says whether the schema is named or declared. -/
def SchemaRef.decode {α : Type} (decl : Decoder α) : Decoder (SchemaRef α)
  | .object [("ref", value)] => (RefName.fields.decode value).map .named
  | .object [("inline", value)] => (decl value).map .inline
  | _ => none

/-! ## Rules of fields -/

def ListRules.fields : Fields ListRules :=
  (Fields.const ListRules.mk)
    |>.and (off "filterable")
    |>.and (texts "default_filters")
    |>.and (off "sortable")
    |>.and (off "searchable")

def Decode.listRulesField : Fields (Option ListRules) :=
  .optional "list_rules" ListRules.fields.decode

def StringField.fields : Fields StringField :=
  (Fields.const StringField.mk)
    |>.and (.optional "format" text)
    |>.and (size "min_len")
    |>.and (size "max_len")
    |>.and (.optional "pattern" text)
    |>.and listRulesField

def IntegerFormat.choices : List (String × IntegerFormat) :=
  [("int32", .int32), ("int64", .int64), ("uint32", .uint32), ("uint64", .uint64)]

def FloatFormat.choices : List (String × FloatFormat) :=
  [("float32", .float32), ("float64", .float64)]

def NumericRules.fields {α : Type} (bound : Decoder α) : Fields (NumericRules α) :=
  (Fields.const NumericRules.mk)
    |>.and (.optional "minimum" bound)
    |>.and (.optional "maximum" bound)
    |>.and (.optional "exclusive_minimum" flag)
    |>.and (.optional "exclusive_maximum" flag)

def IntegerField.fields : Fields IntegerField :=
  (Fields.const IntegerField.mk)
    |>.and (.defaulted "format" .int32 (choice IntegerFormat.choices))
    |>.and (.defaulted "rules" {} (NumericRules.fields (integer int64?)).decode)
    |>.and listRulesField

def FloatField.fields : Fields FloatField :=
  (Fields.const FloatField.mk)
    |>.and (.defaulted "format" .float64 (choice FloatFormat.choices))
    |>.and (.defaulted "rules" {} (NumericRules.fields real).decode)
    |>.and listRulesField

def BoolField.fields : Fields BoolField :=
  (Fields.const BoolField.mk)
    |>.and (.optional "const_value" flag)
    |>.and listRulesField

def BytesField.fields : Fields BytesField :=
  (Fields.const BytesField.mk)
    |>.and (size "min_len")
    |>.and (size "max_len")

def KeyFormat.decode : Decoder KeyFormat :=
  tagged true "kind"
    [("uuid", bare .uuid), ("id62", bare .id62),
      ("custom", ((Fields.const KeyFormat.custom).and (.required "pattern" text)).decode),
      ("informal", bare .informal)]

def KeyField.fields : Fields KeyField :=
  (Fields.const KeyField.mk)
    |>.and (.defaulted "format" .informal KeyFormat.decode)
    |>.and listRulesField

def EnumRules.fields : Fields EnumRules :=
  (Fields.const EnumRules.mk)
    |>.and (texts "in")
    |>.and (texts "not_in")
    |>.and (off "defined_only")

def ArrayRules.fields : Fields ArrayRules :=
  (Fields.const ArrayRules.mk)
    |>.and (size "min_items")
    |>.and (size "max_items")
    |>.and (off "unique_items")

def MapRules.fields : Fields MapRules :=
  (Fields.const MapRules.mk)
    |>.and (size "min_pairs")
    |>.and (size "max_pairs")

def AnyField.fields : Fields AnyField :=
  (Fields.const AnyField.mk)
    |>.and (off "only_defined")
    |>.and (texts "types")

def EntityKey.fields : Fields EntityKey :=
  (Fields.const EntityKey.mk)
    |>.and (off "primary")
    |>.and (off "shard")

/-! ## Schemas -/

def EnumOption.fields : Fields EnumOption :=
  (Fields.const EnumOption.mk) |>.and nameField |>.and descriptionField |>.and spanField

def EnumDecl.fields : Fields EnumDecl :=
  (Fields.const EnumDecl.mk)
    |>.and nameField
    |>.and descriptionField
    |>.and (.optional "prefix" text)
    |>.and (.defaulted "options" [] (list EnumOption.fields.decode))
    |>.and spanField

def PolymorphDecl.fields : Fields PolymorphDecl :=
  (Fields.const PolymorphDecl.mk) |>.and nameField |>.and descriptionField |>.and (texts "members") |>.and spanField

/-- How the schemas inside a schema are read. -/
structure Inner where
  schema : Decoder FieldSchema
  declaration : Decoder Declaration

namespace Inner

variable (inner : Inner)

def property : Fields PropertyDecl :=
  (Fields.const PropertyDecl.mk)
    |>.and nameField
    |>.and descriptionField
    |>.and (off "required")
    |>.and (off "optional")
    |>.and (.optional "entity_key" EntityKey.fields.decode)
    |>.and (.optional "number" (integer int32?))
    |>.and (.required "schema" inner.schema)
    |>.and spanField

def properties (key : String) : Fields (List PropertyDecl) :=
  .defaulted key [] (list inner.property.decode)

def declarations : Fields (List Declaration) :=
  .defaulted "schemas" [] (list inner.declaration)

def object : Fields ObjectDecl :=
  (Fields.const ObjectDecl.mk)
    |>.and nameField
    |>.and descriptionField
    |>.and (inner.properties "properties")
    |>.and inner.declarations
    |>.and (texts "polymorph_member")
    |>.and spanField

def oneof : Fields OneofDecl :=
  (Fields.const OneofDecl.mk)
    |>.and nameField
    |>.and descriptionField
    |>.and (inner.properties "properties")
    |>.and inner.declarations
    |>.and spanField

def schemaOf {α : Type} (decl : Decoder α) : Fields (SchemaRef α) :=
  .required "schema" (SchemaRef.decode decl)

/-- The kinds of field, by tag. -/
def schemaKinds : List (String × Decoder FieldSchema) :=
  [("string", ((Fields.const FieldSchema.string).and (StringField.fields)).decode),
    ("integer", ((Fields.const FieldSchema.integer).and IntegerField.fields).decode),
    ("float", ((Fields.const FieldSchema.float).and FloatField.fields).decode),
    ("decimal", ((Fields.const FieldSchema.decimal).and listRulesField).decode),
    ("date", ((Fields.const FieldSchema.date).and listRulesField).decode),
    ("timestamp", ((Fields.const FieldSchema.timestamp).and listRulesField).decode),
    ("bool", ((Fields.const FieldSchema.bool).and BoolField.fields).decode),
    ("bytes", ((Fields.const FieldSchema.bytes).and BytesField.fields).decode),
    ("key", ((Fields.const FieldSchema.key).and KeyField.fields).decode),
    ("enum", ((Fields.const FieldSchema.enum)
      |>.and (schemaOf EnumDecl.fields.decode)
      |>.and (.defaulted "rules" {} EnumRules.fields.decode)
      |>.and listRulesField).decode),
    ("object", ((Fields.const FieldSchema.object)
      |>.and (schemaOf inner.object.decode)
      |>.and (off "flatten")).decode),
    ("oneof", ((Fields.const FieldSchema.oneof).and (schemaOf inner.oneof.decode)).decode),
    ("polymorph", ((Fields.const FieldSchema.polymorph).and
      (schemaOf PolymorphDecl.fields.decode)).decode),
    ("array", ((Fields.const FieldSchema.array)
      |>.and (.required "items" inner.schema)
      |>.and (.defaulted "rules" {} ArrayRules.fields.decode)
      |>.and (.optional "single_form" text)).decode),
    ("map", ((Fields.const FieldSchema.map)
      |>.and (.required "items" inner.schema)
      |>.and (.defaulted "rules" {} MapRules.fields.decode)).decode),
    ("any", ((Fields.const FieldSchema.any).and AnyField.fields).decode)]

def declarationKinds : List (String × Decoder Declaration) :=
  [("object", ((Fields.const Declaration.object).and inner.object).decode),
    ("oneof", ((Fields.const Declaration.oneof).and inner.oneof).decode),
    ("enum", ((Fields.const Declaration.enum).and EnumDecl.fields).decode),
    ("polymorph", ((Fields.const Declaration.polymorph).and PolymorphDecl.fields).decode)]

end Inner

mutual

/-- The kind of a field with at most `limit` schemas inside one another. -/
def decodeSchema : (limit : Nat) → Decoder FieldSchema
  | 0 => fun _ => none
  | limit + 1 =>
    tagged true "type" (Inner.schemaKinds ⟨decodeSchema limit, decodeDeclaration limit⟩)

def decodeDeclaration : (limit : Nat) → Decoder Declaration
  | 0 => fun _ => none
  | limit + 1 =>
    tagged true "element" (Inner.declarationKinds ⟨decodeSchema limit, decodeDeclaration limit⟩)

end

/-! ## Elements -/

namespace Inner

variable (inner : Inner)

def method : Fields MethodDecl :=
  (Fields.const MethodDecl.mk)
    |>.and nameField
    |>.and descriptionField
    |>.and (.defaulted "http_method" .get (choice
      [("GET", .get), ("POST", .post), ("PUT", .put), ("PATCH", .patch), ("DELETE", .delete)]))
    |>.and (.defaulted "http_path" "" text)
    |>.and (inner.properties "request")
    |>.and (inner.properties "response")
    |>.and spanField

def methods : Fields (List MethodDecl) :=
  .defaulted "methods" [] (list inner.method.decode)

def service : Fields ServiceDecl :=
  (Fields.const ServiceDecl.mk)
    |>.and (.optional "name" text)
    |>.and descriptionField
    |>.and (.defaulted "base_path" "" text)
    |>.and inner.methods
    |>.and spanField

def topicMessage : Fields TopicMessageDecl :=
  (Fields.const TopicMessageDecl.mk)
    |>.and nameField |>.and descriptionField |>.and (inner.properties "properties") |>.and spanField

def topicKind : Decoder TopicKind :=
  tagged true "type"
    [("publish", ((Fields.const TopicKind.publish).and
        (.required "messages" (list inner.topicMessage.decode))).decode),
      ("upsert", ((Fields.const TopicKind.upsert).and
        (.required "message" inner.topicMessage.decode)).decode),
      ("req_res", ((Fields.const TopicKind.reqRes)
        |>.and (.required "request" inner.topicMessage.decode)
        |>.and (.required "reply" inner.topicMessage.decode)).decode)]

def topic : Fields TopicDecl :=
  (Fields.const TopicDecl.mk)
    |>.and nameField |>.and descriptionField |>.and (.required "kind" inner.topicKind) |>.and spanField

def status : Fields StatusDecl :=
  (Fields.const StatusDecl.mk) |>.and nameField |>.and descriptionField |>.and spanField

def event : Fields EventDecl :=
  (Fields.const EventDecl.mk)
    |>.and nameField |>.and descriptionField |>.and (inner.properties "properties") |>.and spanField

def commandGroup : Fields CommandGroup :=
  (Fields.const CommandGroup.mk)
    |>.and (.optional "name" text)
    |>.and descriptionField
    |>.and (.optional "base_path" text)
    |>.and inner.methods
    |>.and spanField

def summary : Fields SummaryDecl :=
  (Fields.const SummaryDecl.mk)
    |>.and nameField |>.and descriptionField |>.and (inner.properties "properties") |>.and spanField

def query : Fields EntityQuery :=
  (Fields.const EntityQuery.mk)
    |>.and (texts "default_status_filter") |>.and (off "events_in_get") |>.and spanField

def entity : Fields EntityDecl :=
  (Fields.const EntityDecl.mk)
    |>.and nameField
    |>.and descriptionField
    |>.and (.defaulted "base_url_path" "" text)
    |>.and (inner.properties "keys")
    |>.and (inner.properties "data")
    |>.and (.defaulted "status" [] (list status.decode))
    |>.and (.defaulted "events" [] (list inner.event.decode))
    |>.and (.defaulted "commands" [] (list inner.commandGroup.decode))
    |>.and (.defaulted "summaries" [] (list inner.summary.decode))
    |>.and (.optional "query" query.decode)
    |>.and inner.declarations
    |>.and spanField

def elementKinds : List (String × Decoder Element) :=
  [("object", ((Fields.const Element.object).and inner.object).decode),
    ("oneof", ((Fields.const Element.oneof).and inner.oneof).decode),
    ("enum", ((Fields.const Element.enum).and EnumDecl.fields).decode),
    ("polymorph", ((Fields.const Element.polymorph).and PolymorphDecl.fields).decode),
    ("entity", ((Fields.const Element.entity).and inner.entity).decode),
    ("service", ((Fields.const Element.service).and inner.service).decode),
    ("topic", ((Fields.const Element.topic).and inner.topic).decode)]

def element : Decoder Element := tagged false "element" inner.elementKinds

end Inner

/-! ## Documents -/

def Import.fields : Fields Import :=
  (Fields.const Import.mk)
    |>.and (.optional "path" text)
    |>.and (.optional "package" text)
    |>.and (.optional "alias" text)
    |>.and spanField

namespace Document

/-- How schemas with at most `limit` inside one another are read. -/
def inner (limit : Nat) : Inner := ⟨decodeSchema limit, decodeDeclaration limit⟩

def fields (limit : Nat) : Fields Document :=
  (Fields.const Document.mk)
    |>.and (.defaulted "path" "" text)
    |>.and (.defaulted "package" "" text)
    |>.and (.defaulted "imports" [] (list Import.fields.decode))
    |>.and (.defaulted "elements" [] (list (inner limit).element))

/-- The document a value denotes. -/
def ofJson (limit : Nat) : Decoder Document :=
  (fields limit).decode

/-- How deep brackets may be nested in a document. -/
def nestingLimit : Nat := 127

/-- The document of a value that is not nested too deep. -/
def ofValue? (value : Json) : Option Document :=
  if nestingLimit < value.depth then none else ofJson nestingLimit value

end Document

/-! ## Documents from their text

The outer records of a document are read as they come, each element as a whole.  A place
is told only where the text itself is at fault: where it breaks, or holds what no JSON
value can be. -/

/-- Why a document is refused: its text is no JSON from a place on, or it holds something
else than a document does. -/
inductive DecodeError where
  | malformed (mark : Mark)
  | mismatch
deriving DecidableEq, Repr

def Position.shape : Shape :=
  .record [("line", false, .uint32), ("column", false, .uint32)]

def Span.shape : Shape :=
  .record [("start", false, Position.shape), ("end", false, Position.shape)]

def Import.shape : Shape :=
  .record [("path", true, .nullable .text), ("package", true, .nullable .text),
    ("alias", true, .nullable .text), ("span", true, Span.shape)]

namespace Document

def elementShape (limit : Nat) : Shape :=
  .tagged "element" ((inner limit).elementKinds.map Prod.fst) fun value =>
    ((inner limit).element value).isSome

def shape (limit : Nat) : Shape :=
  .record [("path", true, .text), ("package", true, .text),
    ("imports", true, .list Import.shape), ("elements", true, .list (elementShape limit))]

/-- The error of a reading that stops at a place. -/
def errorAt (text : String) (mark : Mark) : DecodeError :=
  match Json.read nestingLimit text with
  | .error fault => if fault = mark then .malformed mark else .mismatch
  | .ok _ => .mismatch

/-- Reads a document from its text. -/
def parse (text : String) : Except DecodeError Document :=
  match (shape nestingLimit).readText nestingLimit text with
  | .error mark => .error (errorAt text mark)
  | .ok value =>
    match ofJson nestingLimit value with
    | some document => .ok document
    | none => .error .mismatch

end Document
end Schematic
