import Schematic.Diagnostic
import Schematic.Real.Binary64

/-!
# Schema documents

A document declares schemas (objects, oneofs, enums and polymorphs), entities,
services and topics.  A property that holds another schema either names it or
declares it in place.
-/

namespace Schematic

/-! ## References and rules of fields -/

/-- A schema by name.  The package is a full name or the alias of an import, and
none stands for the package of the document. -/
structure RefName where
  package : Option String := none
  schema : String
deriving DecidableEq, Repr

def RefName.text (r : RefName) : String :=
  match r.package with
  | some package => package ++ "." ++ r.schema
  | none => r.schema

/-- A schema named or declared in place. -/
inductive SchemaRef (α : Type) where
  | named (name : RefName)
  | inline (decl : α)
deriving Repr

structure ListRules where
  filterable : Bool := false
  defaultFilters : List String := []
  sortable : Bool := false
  searchable : Bool := false
deriving DecidableEq, Repr

def ListRules.isEmpty (r : ListRules) : Bool :=
  !r.filterable && r.defaultFilters.isEmpty && !r.sortable && !r.searchable

structure StringField where
  format : Option String := none
  minLen : Option UInt64 := none
  maxLen : Option UInt64 := none
  pattern : Option String := none
  listRules : Option ListRules := none
deriving DecidableEq, Repr

inductive IntegerFormat where
  | int32 | int64 | uint32 | uint64
deriving DecidableEq, Repr

inductive FloatFormat where
  | float32 | float64
deriving DecidableEq, Repr

/-- Bounds on a number.  Whether a bound is exclusive means something only beside
the bound. -/
structure NumericRules (α : Type) where
  minimum : Option α := none
  maximum : Option α := none
  exclusiveMinimum : Option Bool := none
  exclusiveMaximum : Option Bool := none
deriving DecidableEq, Repr

structure IntegerField where
  format : IntegerFormat := .int32
  rules : NumericRules Int64 := {}
  listRules : Option ListRules := none
deriving DecidableEq, Repr

structure FloatField where
  format : FloatFormat := .float64
  rules : NumericRules Binary64 := {}
  listRules : Option ListRules := none
deriving DecidableEq, Repr

structure BoolField where
  constValue : Option Bool := none
  listRules : Option ListRules := none
deriving DecidableEq, Repr

structure BytesField where
  minLen : Option UInt64 := none
  maxLen : Option UInt64 := none
deriving DecidableEq, Repr

inductive KeyFormat where
  | uuid
  | id62
  | custom (pattern : String)
  | informal
deriving DecidableEq, Repr

structure KeyField where
  format : KeyFormat := .informal
  listRules : Option ListRules := none
deriving DecidableEq, Repr

/-- Which values of an enum a field may take, by value name with or without the
enum's prefix. -/
structure EnumRules where
  allowed : List String := []
  forbidden : List String := []
  definedOnly : Bool := false
deriving DecidableEq, Repr

structure ArrayRules where
  minItems : Option UInt64 := none
  maxItems : Option UInt64 := none
  uniqueItems : Bool := false
deriving DecidableEq, Repr

structure MapRules where
  minPairs : Option UInt64 := none
  maxPairs : Option UInt64 := none
deriving DecidableEq, Repr

structure AnyField where
  onlyDefined : Bool := false
  types : List String := []
deriving DecidableEq, Repr

structure EntityKey where
  primary : Bool := false
  shard : Bool := false
deriving DecidableEq, Repr

/-! ## Schemas -/

structure EnumOption where
  name : String
  description : Option String := none
  span : Span := {}
deriving DecidableEq, Repr

structure EnumDecl where
  name : String
  description : Option String := none
  /-- What every value name starts with, underscore included.  Made from the enum's
  name when absent. -/
  valuePrefix : Option String := none
  options : List EnumOption := []
  span : Span := {}
deriving DecidableEq, Repr

structure PolymorphDecl where
  name : String
  description : Option String := none
  /-- Full names of the objects that may stand for it. -/
  members : List String := []
  span : Span := {}
deriving DecidableEq, Repr

mutual

inductive FieldSchema where
  | string (field : StringField)
  | integer (field : IntegerField)
  | float (field : FloatField)
  | decimal (listRules : Option ListRules)
  | date (listRules : Option ListRules)
  | timestamp (listRules : Option ListRules)
  | bool (field : BoolField)
  | bytes (field : BytesField)
  | key (field : KeyField)
  | enum (schema : SchemaRef EnumDecl) (rules : EnumRules) (listRules : Option ListRules)
  | object (schema : SchemaRef ObjectDecl) (flatten : Bool)
  | oneof (schema : SchemaRef OneofDecl)
  | polymorph (schema : SchemaRef PolymorphDecl)
  | array (items : FieldSchema) (rules : ArrayRules) (singleForm : Option String)
  | map (items : FieldSchema) (rules : MapRules)
  | any (field : AnyField)

structure PropertyDecl where
  name : String
  description : Option String := none
  required : Bool := false
  /-- Whether the field tells an absent value from a default one. -/
  optional : Bool := false
  entityKey : Option EntityKey := none
  /-- Its number, when it is not numbered by its place. -/
  number : Option Int32 := none
  schema : FieldSchema
  span : Span := {}

structure ObjectDecl where
  name : String
  description : Option String := none
  properties : List PropertyDecl := []
  schemas : List Declaration := []
  /-- Full names of the polymorphs it says it is a member of. -/
  polymorphMember : List String := []
  span : Span := {}

/-- An object of which one property is present at a time. -/
structure OneofDecl where
  name : String
  description : Option String := none
  properties : List PropertyDecl := []
  schemas : List Declaration := []
  span : Span := {}

/-- A schema that may be declared inside another. -/
inductive Declaration where
  | object (decl : ObjectDecl)
  | oneof (decl : OneofDecl)
  | enum (decl : EnumDecl)
  | polymorph (decl : PolymorphDecl)

end

/-! ## Services and topics -/

inductive HttpMethod where
  | get | post | put | patch | delete
deriving DecidableEq, Repr

def HttpMethod.verb : HttpMethod → String
  | .get => "get"
  | .post => "post"
  | .put => "put"
  | .patch => "patch"
  | .delete => "delete"

structure MethodDecl where
  name : String
  description : Option String := none
  httpMethod : HttpMethod := .get
  httpPath : String := ""
  request : List PropertyDecl := []
  response : List PropertyDecl := []
  span : Span := {}

structure ServiceDecl where
  name : Option String := none
  description : Option String := none
  basePath : String := ""
  methods : List MethodDecl := []
  span : Span := {}

structure TopicMessageDecl where
  name : String
  description : Option String := none
  properties : List PropertyDecl := []
  span : Span := {}

inductive TopicKind where
  | publish (messages : List TopicMessageDecl)
  | upsert (message : TopicMessageDecl)
  | reqRes (request reply : TopicMessageDecl)

structure TopicDecl where
  name : String
  description : Option String := none
  kind : TopicKind
  span : Span := {}

/-! ## Entities -/

structure StatusDecl where
  name : String
  description : Option String := none
  span : Span := {}
deriving DecidableEq, Repr

structure EventDecl where
  name : String
  description : Option String := none
  properties : List PropertyDecl := []
  span : Span := {}

structure CommandGroup where
  name : Option String := none
  description : Option String := none
  basePath : Option String := none
  methods : List MethodDecl := []
  span : Span := {}

structure SummaryDecl where
  name : String
  description : Option String := none
  properties : List PropertyDecl := []
  span : Span := {}

structure EntityQuery where
  defaultStatusFilter : List String := []
  eventsInGet : Bool := false
  span : Span := {}
deriving DecidableEq, Repr

/-- A state machine: its keys, its data, the states it can be in and the events
that move it. -/
structure EntityDecl where
  name : String
  description : Option String := none
  baseUrlPath : String := ""
  keys : List PropertyDecl := []
  data : List PropertyDecl := []
  status : List StatusDecl := []
  events : List EventDecl := []
  commands : List CommandGroup := []
  summaries : List SummaryDecl := []
  query : Option EntityQuery := none
  schemas : List Declaration := []
  span : Span := {}

/-! ## Documents -/

/-- A file or a package made known to the document, a package also under an alias. -/
structure Import where
  path : Option String := none
  package : Option String := none
  localName : Option String := none
  span : Span := {}
deriving DecidableEq, Repr

inductive Element where
  | object (decl : ObjectDecl)
  | oneof (decl : OneofDecl)
  | enum (decl : EnumDecl)
  | polymorph (decl : PolymorphDecl)
  | entity (decl : EntityDecl)
  | service (decl : ServiceDecl)
  | topic (decl : TopicDecl)

structure Document where
  path : String := ""
  package : String := ""
  imports : List Import := []
  elements : List Element := []

end Schematic
