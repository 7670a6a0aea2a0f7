import Schematic.Diagnostic
import Schematic.Document.Basic
import Schematic.Text.Quoted

/-!
# Nodes

Nodes are what declarations become once their names are checked, their properties
numbered, the schemas declared in place moved out to where they can be named, and
entities written out in full.  Nodes refer to one another by name only.
-/

namespace Schematic

/-- What every schema node has: its name, the schemas around it from the outermost
in, its description and where it was declared. -/
structure Head where
  name : String
  nest : List String := []
  description : Option String := none
  file : String := ""
  span : Span := {}
deriving DecidableEq, Repr

namespace Head

/-- The nest of a schema inside this one. -/
def childNest (h : Head) : List String :=
  h.nest ++ [h.name]

/-- `Outer.Inner`. -/
def nameInPackage (h : Head) : String :=
  Text.join "." h.childNest

end Head

/-! ## Parts of an entity -/

inductive EntityPart where
  | keys | data | status | state | eventType | event
deriving DecidableEq, Repr

def EntityPart.text : EntityPart → String
  | .keys => "KEYS"
  | .data => "DATA"
  | .status => "STATUS"
  | .state => "STATE"
  | .eventType => "EVENT_TYPE"
  | .event => "EVENT"

/-- The entity, in snake case, and which part of it a node is. -/
structure EntityRef where
  entity : String
  part : EntityPart
deriving DecidableEq, Repr

/-! ## Properties -/

/-- The kind of a field, which names every schema it holds. -/
inductive FieldNode where
  | string (field : StringField)
  | integer (field : IntegerField)
  | float (field : FloatField)
  | decimal (listRules : Option ListRules)
  | date (listRules : Option ListRules)
  | timestamp (listRules : Option ListRules)
  | bool (field : BoolField)
  | bytes (field : BytesField)
  | key (field : KeyField)
  | enum (target : RefName) (rules : EnumRules) (listRules : Option ListRules)
  | object (target : RefName) (flatten : Bool)
  | oneof (target : RefName)
  | polymorph (target : RefName)
  | array (items : FieldNode) (rules : ArrayRules) (singleForm : Option String)
  | map (items : FieldNode) (rules : MapRules)
  | any (field : AnyField)
deriving DecidableEq, Repr

namespace FieldNode

def kindName : FieldNode → String
  | .string _ => "string"
  | .integer _ => "integer"
  | .float _ => "float"
  | .decimal _ => "decimal"
  | .date _ => "date"
  | .timestamp _ => "timestamp"
  | .bool _ => "bool"
  | .bytes _ => "bytes"
  | .key _ => "key"
  | .enum .. => "enum"
  | .object .. => "object"
  | .oneof _ => "oneof"
  | .polymorph _ => "polymorph"
  | .array .. => "array"
  | .map .. => "map"
  | .any _ => "any"

/-- The schema a field names, also as the item of an array or a map. -/
def target? : FieldNode → Option RefName
  | .enum target _ _ => some target
  | .object target _ => some target
  | .oneof target => some target
  | .polymorph target => some target
  | .array items _ _ => items.target?
  | .map items _ => items.target?
  | _ => none

end FieldNode

structure PropertyNode where
  name : String
  description : Option String := none
  number : Int
  required : Bool := false
  optional : Bool := false
  entityKey : Option EntityKey := none
  field : FieldNode
  span : Span := {}
deriving DecidableEq, Repr

/-! ## Schemas -/

structure EnumNode where
  head : Head
  /-- What value names start with, underscore included. -/
  valuePrefix : String
  /-- As declared, with or without the prefix. -/
  options : List EnumOption := []
  entity : Option EntityRef := none
deriving DecidableEq, Repr

structure PolymorphNode where
  head : Head
  members : List String := []
deriving DecidableEq, Repr

mutual

structure ObjectNode where
  head : Head
  properties : List PropertyNode := []
  nested : List SchemaNode := []
  entity : Option EntityRef := none
  polymorphMember : List String := []

structure OneofNode where
  head : Head
  properties : List PropertyNode := []
  nested : List SchemaNode := []
  entity : Option EntityRef := none

inductive SchemaNode where
  | object (node : ObjectNode)
  | oneof (node : OneofNode)
  | enum (node : EnumNode)
  | polymorph (node : PolymorphNode)

end

namespace SchemaNode

def head : SchemaNode → Head
  | .object node => node.head
  | .oneof node => node.head
  | .enum node => node.head
  | .polymorph node => node.head

def nameInPackage (node : SchemaNode) : String :=
  node.head.nameInPackage

end SchemaNode

/-! ## Services and topics -/

inductive QueryKind where
  | get | list | listEvents
deriving DecidableEq, Repr

/-- The entity, in snake case, that a service was made for. -/
inductive ServiceEntity where
  | query (entity : String)
  | command (entity : String)
deriving DecidableEq, Repr

structure MethodNode where
  name : String
  description : Option String := none
  httpMethod : HttpMethod := .get
  httpPath : String := ""
  request : ObjectNode
  response : ObjectNode
  query : Option QueryKind := none
  span : Span := {}

structure ServiceNode where
  head : Head
  basePath : String := ""
  methods : List MethodNode := []
  entity : Option ServiceEntity := none

inductive TopicShape where
  | publish | upsert | reqRes
deriving DecidableEq, Repr

def TopicShape.text : TopicShape → String
  | .publish => "publish"
  | .upsert => "upsert"
  | .reqRes => "reqres"

structure TopicMessageNode where
  name : String
  description : Option String := none
  message : ObjectNode
  span : Span := {}

structure TopicNode where
  head : Head
  shape : TopicShape
  messages : List TopicMessageNode := []

/-- What an element of a document becomes. -/
inductive RootNode where
  | schema (node : SchemaNode)
  | service (node : ServiceNode)
  | topic (node : TopicNode)

/-! ## Declarations that do not become nodes -/

/-- What is wrong with a declaration. -/
inductive Malformation where
  | missingName (what : String)
  | requiredBranch (oneof branch : String)
  | lateUnspecified (enum option : String)
  | duplicateOption (enum option : String)
  | duplicateProperty (owner property : String)
  | invalidNumber (owner property : String) (number : Int)
  | duplicateNumber (owner property : String) (number : Int)
  | noMessages (topic : String)
  | noEvents (entity : String)
  | duplicateSummary (entity summary : String)
  | noPrimaryKey (entity : String)
  /-- Raised by whoever walks the nodes. -/
  | objection (message : String)
deriving DecidableEq, Repr

def Malformation.message : Malformation → String
  | .missingName what => what ++ " name is required"
  | .requiredBranch oneof branch => "oneof " ++ oneof ++ ": branch " ++ branch ++ " cannot be required"
  | .lateUnspecified enum option => "enum " ++ enum ++ ": " ++ option ++ " may only be the first option"
  | .duplicateOption enum option => "enum " ++ enum ++ ": duplicate option " ++ option
  | .duplicateProperty owner property => owner ++ ": duplicate property " ++ property
  | .invalidNumber owner property number =>
    owner ++ ": property " ++ property ++ " has invalid number " ++ toString number
  | .duplicateNumber owner property number =>
    owner ++ ": duplicate field number " ++ toString number ++ " on " ++ property
  | .noMessages topic => "topic " ++ topic ++ " has no messages"
  | .noEvents entity => "entity " ++ entity ++ " must declare at least one event"
  | .duplicateSummary entity summary => "entity " ++ entity ++ ": duplicate summary " ++ summary
  | .noPrimaryKey entity => "entity " ++ entity ++ " has no primary key"
  | .objection message => message

/-- A malformed declaration costs only the element it stands in.  A status filter
that names no status of its entity ends the whole document. -/
inductive NodeError where
  | malformed (cause : Malformation) (place : Place)
  | unknownStatusFilter (entity status : String) (place : Place)
deriving DecidableEq, Repr

namespace NodeError

def isFatal : NodeError → Bool
  | .malformed .. => false
  | .unknownStatusFilter .. => true

def place : NodeError → Place
  | .malformed _ place => place
  | .unknownStatusFilter _ _ place => place

def message : NodeError → String
  | .malformed cause _ => cause.message
  | .unknownStatusFilter entity status _ =>
    "entity " ++ entity ++ ": default status filter " ++ Text.quoted status ++
      " is not a declared status"

instance : ToString NodeError := ⟨message⟩

end NodeError
end Schematic
