import Schematic.Document.Basic
import Schematic.Json.Basic

/-!
# Documents as JSON

Every field is written, an absent one as `null`.  A number that is not finite has no
JSON and is written as `null` too.
-/

namespace Schematic

namespace Encode

def option {α : Type} (encode : α → Json) : Option α → Json
  | none => .null
  | some a => encode a

def texts (items : List String) : Json := .array (items.map .string)
def text? (s : Option String) : Json := option .string s
def flag? (b : Option Bool) : Json := option .bool b
def integer (i : Int) : Json := .number (.integer i)
def size? (n : Option UInt64) : Json := option (fun n => integer n.toNat) n

def real (x : Binary64) : Json :=
  if x.isFinite then .number (.real x) else .null

end Encode

open Encode

def Position.encode (p : Position) : Json :=
  .object [("line", integer p.line.toNat), ("column", integer p.column.toNat)]

def Span.encode (s : Span) : Json :=
  .object [("start", s.start.encode), ("end", s.stop.encode)]

def RefName.encode (r : RefName) : Json :=
  .object [("package", text? r.package), ("schema", .string r.schema)]

/-! ## Rules of fields -/

def ListRules.encode (r : ListRules) : Json :=
  .object [("filterable", .bool r.filterable), ("default_filters", texts r.defaultFilters),
    ("sortable", .bool r.sortable), ("searchable", .bool r.searchable)]

def Encode.listRules (r : Option ListRules) : String × Json :=
  ("list_rules", option ListRules.encode r)

def StringField.record (f : StringField) : List (String × Json) :=
  [("format", text? f.format), ("min_len", size? f.minLen), ("max_len", size? f.maxLen),
    ("pattern", text? f.pattern), Encode.listRules f.listRules]

def IntegerFormat.encode : IntegerFormat → Json
  | .int32 => .string "int32"
  | .int64 => .string "int64"
  | .uint32 => .string "uint32"
  | .uint64 => .string "uint64"

def FloatFormat.encode : FloatFormat → Json
  | .float32 => .string "float32"
  | .float64 => .string "float64"

def NumericRules.encode {α : Type} (bound : α → Json) (r : NumericRules α) : Json :=
  .object [("minimum", option bound r.minimum), ("maximum", option bound r.maximum),
    ("exclusive_minimum", flag? r.exclusiveMinimum),
    ("exclusive_maximum", flag? r.exclusiveMaximum)]

def IntegerField.record (f : IntegerField) : List (String × Json) :=
  [("format", f.format.encode), ("rules", f.rules.encode fun i => integer i.toInt),
    Encode.listRules f.listRules]

def FloatField.record (f : FloatField) : List (String × Json) :=
  [("format", f.format.encode), ("rules", f.rules.encode real), Encode.listRules f.listRules]

def BoolField.record (f : BoolField) : List (String × Json) :=
  [("const_value", flag? f.constValue), Encode.listRules f.listRules]

def BytesField.record (f : BytesField) : List (String × Json) :=
  [("min_len", size? f.minLen), ("max_len", size? f.maxLen)]

def KeyFormat.encode : KeyFormat → Json
  | .uuid => .object [("kind", .string "uuid")]
  | .id62 => .object [("kind", .string "id62")]
  | .custom pattern => .object [("kind", .string "custom"), ("pattern", .string pattern)]
  | .informal => .object [("kind", .string "informal")]

def KeyField.record (f : KeyField) : List (String × Json) :=
  [("format", f.format.encode), Encode.listRules f.listRules]

def EnumRules.encode (r : EnumRules) : Json :=
  .object [("in", texts r.allowed), ("not_in", texts r.forbidden),
    ("defined_only", .bool r.definedOnly)]

def ArrayRules.encode (r : ArrayRules) : Json :=
  .object [("min_items", size? r.minItems), ("max_items", size? r.maxItems),
    ("unique_items", .bool r.uniqueItems)]

def MapRules.encode (r : MapRules) : Json :=
  .object [("min_pairs", size? r.minPairs), ("max_pairs", size? r.maxPairs)]

def AnyField.record (f : AnyField) : List (String × Json) :=
  [("only_defined", .bool f.onlyDefined), ("types", texts f.types)]

def EntityKey.encode (k : EntityKey) : Json :=
  .object [("primary", .bool k.primary), ("shard", .bool k.shard)]

/-! ## Schemas -/

def EnumOption.encode (o : EnumOption) : Json :=
  .object [("name", .string o.name), ("description", text? o.description),
    ("span", o.span.encode)]

def EnumDecl.record (d : EnumDecl) : List (String × Json) :=
  [("name", .string d.name), ("description", text? d.description),
    ("prefix", text? d.valuePrefix), ("options", .array (d.options.map EnumOption.encode)),
    ("span", d.span.encode)]

def PolymorphDecl.record (d : PolymorphDecl) : List (String × Json) :=
  [("name", .string d.name), ("description", text? d.description),
    ("members", texts d.members), ("span", d.span.encode)]

def SchemaRef.encode {α : Type} (decl : α → Json) : SchemaRef α → Json
  | .named name => .object [("ref", name.encode)]
  | .inline d => .object [("inline", decl d)]

mutual

def FieldSchema.encode : FieldSchema → Json
  | .string f => .object (("type", .string "string") :: f.record)
  | .integer f => .object (("type", .string "integer") :: f.record)
  | .float f => .object (("type", .string "float") :: f.record)
  | .decimal r => .object [("type", .string "decimal"), Encode.listRules r]
  | .date r => .object [("type", .string "date"), Encode.listRules r]
  | .timestamp r => .object [("type", .string "timestamp"), Encode.listRules r]
  | .bool f => .object (("type", .string "bool") :: f.record)
  | .bytes f => .object (("type", .string "bytes") :: f.record)
  | .key f => .object (("type", .string "key") :: f.record)
  | .enum schema rules r =>
    .object [("type", .string "enum"), ("schema", schema.encode fun d => .object d.record),
      ("rules", rules.encode), Encode.listRules r]
  | .object (.named name) flatten =>
    .object [("type", .string "object"), ("schema", .object [("ref", name.encode)]),
      ("flatten", .bool flatten)]
  | .object (.inline decl) flatten =>
    .object [("type", .string "object"), ("schema", .object [("inline", .object decl.record)]),
      ("flatten", .bool flatten)]
  | .oneof (.named name) =>
    .object [("type", .string "oneof"), ("schema", .object [("ref", name.encode)])]
  | .oneof (.inline decl) =>
    .object [("type", .string "oneof"), ("schema", .object [("inline", .object decl.record)])]
  | .polymorph schema =>
    .object [("type", .string "polymorph"), ("schema", schema.encode fun d => .object d.record)]
  | .array items rules singleForm =>
    .object [("type", .string "array"), ("items", items.encode), ("rules", rules.encode),
      ("single_form", text? singleForm)]
  | .map items rules =>
    .object [("type", .string "map"), ("items", items.encode), ("rules", rules.encode)]
  | .any f => .object (("type", .string "any") :: f.record)

def PropertyDecl.encode : PropertyDecl → Json
  | { name, description, required, optional, entityKey, number, schema, span } =>
    .object [("name", .string name), ("description", text? description),
      ("required", .bool required), ("optional", .bool optional),
      ("entity_key", option EntityKey.encode entityKey),
      ("number", option (fun n => integer n.toInt) number),
      ("schema", schema.encode), ("span", span.encode)]

def encodeProperties : List PropertyDecl → List Json
  | [] => []
  | p :: rest => p.encode :: encodeProperties rest

def ObjectDecl.record : ObjectDecl → List (String × Json)
  | { name, description, properties, schemas, polymorphMember, span } =>
    [("name", .string name), ("description", text? description),
      ("properties", .array (encodeProperties properties)),
      ("schemas", .array (encodeDeclarations schemas)),
      ("polymorph_member", texts polymorphMember), ("span", span.encode)]

def OneofDecl.record : OneofDecl → List (String × Json)
  | { name, description, properties, schemas, span } =>
    [("name", .string name), ("description", text? description),
      ("properties", .array (encodeProperties properties)),
      ("schemas", .array (encodeDeclarations schemas)), ("span", span.encode)]

def Declaration.encode : Declaration → Json
  | .object d => .object (("element", .string "object") :: d.record)
  | .oneof d => .object (("element", .string "oneof") :: d.record)
  | .enum d => .object (("element", .string "enum") :: d.record)
  | .polymorph d => .object (("element", .string "polymorph") :: d.record)

def encodeDeclarations : List Declaration → List Json
  | [] => []
  | d :: rest => d.encode :: encodeDeclarations rest

end

/-! ## Elements and documents -/

def Encode.properties (items : List PropertyDecl) : Json :=
  .array (encodeProperties items)

def HttpMethod.encode : HttpMethod → Json
  | .get => .string "GET"
  | .post => .string "POST"
  | .put => .string "PUT"
  | .patch => .string "PATCH"
  | .delete => .string "DELETE"

def MethodDecl.encode (d : MethodDecl) : Json :=
  .object [("name", .string d.name), ("description", text? d.description),
    ("http_method", d.httpMethod.encode), ("http_path", .string d.httpPath),
    ("request", Encode.properties d.request), ("response", Encode.properties d.response),
    ("span", d.span.encode)]

def Encode.methods (items : List MethodDecl) : Json :=
  .array (items.map MethodDecl.encode)

def ServiceDecl.record (d : ServiceDecl) : List (String × Json) :=
  [("name", text? d.name), ("description", text? d.description),
    ("base_path", .string d.basePath), ("methods", Encode.methods d.methods), ("span", d.span.encode)]

def TopicMessageDecl.encode (d : TopicMessageDecl) : Json :=
  .object [("name", .string d.name), ("description", text? d.description),
    ("properties", Encode.properties d.properties), ("span", d.span.encode)]

def TopicKind.encode : TopicKind → Json
  | .publish messages =>
    .object [("type", .string "publish"), ("messages", .array (messages.map TopicMessageDecl.encode))]
  | .upsert message => .object [("type", .string "upsert"), ("message", message.encode)]
  | .reqRes request reply =>
    .object [("type", .string "req_res"), ("request", request.encode), ("reply", reply.encode)]

def TopicDecl.record (d : TopicDecl) : List (String × Json) :=
  [("name", .string d.name), ("description", text? d.description),
    ("kind", d.kind.encode), ("span", d.span.encode)]

def StatusDecl.encode (d : StatusDecl) : Json :=
  .object [("name", .string d.name), ("description", text? d.description),
    ("span", d.span.encode)]

def EventDecl.encode (d : EventDecl) : Json :=
  .object [("name", .string d.name), ("description", text? d.description),
    ("properties", Encode.properties d.properties), ("span", d.span.encode)]

def CommandGroup.encode (d : CommandGroup) : Json :=
  .object [("name", text? d.name), ("description", text? d.description),
    ("base_path", text? d.basePath), ("methods", Encode.methods d.methods), ("span", d.span.encode)]

def SummaryDecl.encode (d : SummaryDecl) : Json :=
  .object [("name", .string d.name), ("description", text? d.description),
    ("properties", Encode.properties d.properties), ("span", d.span.encode)]

def EntityQuery.encode (q : EntityQuery) : Json :=
  .object [("default_status_filter", texts q.defaultStatusFilter),
    ("events_in_get", .bool q.eventsInGet), ("span", q.span.encode)]

def EntityDecl.record (d : EntityDecl) : List (String × Json) :=
  [("name", .string d.name), ("description", text? d.description),
    ("base_url_path", .string d.baseUrlPath), ("keys", Encode.properties d.keys),
    ("data", Encode.properties d.data), ("status", .array (d.status.map StatusDecl.encode)),
    ("events", .array (d.events.map EventDecl.encode)),
    ("commands", .array (d.commands.map CommandGroup.encode)),
    ("summaries", .array (d.summaries.map SummaryDecl.encode)),
    ("query", option EntityQuery.encode d.query),
    ("schemas", .array (encodeDeclarations d.schemas)), ("span", d.span.encode)]

def Element.encode : Element → Json
  | .object d => .object (("element", .string "object") :: d.record)
  | .oneof d => .object (("element", .string "oneof") :: d.record)
  | .enum d => .object (("element", .string "enum") :: d.record)
  | .polymorph d => .object (("element", .string "polymorph") :: d.record)
  | .entity d => .object (("element", .string "entity") :: d.record)
  | .service d => .object (("element", .string "service") :: d.record)
  | .topic d => .object (("element", .string "topic") :: d.record)

def Import.encode (i : Import) : Json :=
  .object [("path", text? i.path), ("package", text? i.package), ("alias", text? i.localName),
    ("span", i.span.encode)]

def Document.encode (d : Document) : Json :=
  .object [("path", .string d.path), ("package", .string d.package),
    ("imports", .array (d.imports.map Import.encode)),
    ("elements", .array (d.elements.map Element.encode))]

end Schematic
