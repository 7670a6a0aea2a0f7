import Schematic.Node.Basic
import Schematic.TypeRef

/-!
# Nodes from declarations

A schema declared in place becomes a schema nested in the one that has the
property, behind the schemas declared there, and the property names it.  It takes
its name from the property when it has none.

Properties are numbered by their place, from 1, unless they bring a number.
-/

namespace Schematic
namespace Build

def fault {α : Type} (file : String) (span : Span) (cause : Malformation) : Except NodeError α :=
  .error (.malformed cause ⟨file, span⟩)

def requireName (file what name : String) (span : Span) : Except NodeError Unit :=
  if Text.isBlank name then fault file span (.missingName what) else .ok ()

/-! ## Enums and polymorphs -/

/-- What the value names of an enum start with. -/
def enumPrefix (decl : EnumDecl) : String :=
  match decl.valuePrefix with
  | some p => if Text.endsWith "_" p then p else p ++ "_"
  | none => Case.upperSnake decl.name ++ "_"

/-- A value name without the enum's prefix. -/
def bareName (valuePrefix option : String) : String :=
  (Text.withoutStart? valuePrefix option).getD option

def unspecified : String := "UNSPECIFIED"

/-- Checks the options of an enum in turn.  `seen` holds the bare names of those
before. -/
def checkOptions (file enum valuePrefix : String) : (seen : List String) → List EnumOption →
    Except NodeError Unit
  | _, [] => .ok ()
  | seen, option :: rest => do
    requireName file "enum option" option.name option.span
    let bare := bareName valuePrefix option.name
    if !seen.isEmpty && bare = unspecified then
      fault file option.span (.lateUnspecified enum option.name)
    else if seen.contains bare then
      fault file option.span (.duplicateOption enum option.name)
    else checkOptions file enum valuePrefix (bare :: seen) rest

def enum (file : String) (nest : List String) (decl : EnumDecl) : Except NodeError EnumNode := do
  requireName file "enum" decl.name decl.span
  checkOptions file decl.name (enumPrefix decl) [] decl.options
  return { head := ⟨decl.name, nest, decl.description, file, decl.span⟩
           valuePrefix := enumPrefix decl
           options := decl.options }

def polymorph (file : String) (nest : List String) (decl : PolymorphDecl) :
    Except NodeError PolymorphNode := do
  requireName file "polymorph" decl.name decl.span
  return { head := ⟨decl.name, nest, decl.description, file, decl.span⟩
           members := decl.members }

/-- The name of a schema declared in place. -/
def inlineName (property declared : String) : String :=
  if declared = "" then Case.upperCamel property else declared

/-! ## Objects, oneofs and their properties -/

/-- The number of a property, given the names and numbers of those before it. -/
def propertyNumber (file owner : String) (names : List String) (numbers : List Int) (place : Nat)
    (name : String) (number : Option Int32) (span : Span) : Except NodeError Int := do
  requireName file "property" name span
  let n : Int := match number with
    | some explicit => explicit.toInt
    | none => place
  if names.contains name then fault file span (.duplicateProperty owner name)
  else if n < 1 then fault file span (.invalidNumber owner name n)
  else if numbers.contains n then fault file span (.duplicateNumber owner name n)
  else .ok n

def checkBranches (file oneof : String) : List PropertyNode → Except NodeError Unit
  | [] => .ok ()
  | p :: rest =>
    if p.required then fault file p.span (.requiredBranch oneof p.name)
    else checkBranches file oneof rest

mutual

/-- The kind of a field, and the schemas it declares in place. -/
def field (file : String) (owner : Head) (property : String) :
    FieldSchema → Except NodeError (FieldNode × List SchemaNode)
  | .string f => .ok (.string f, [])
  | .integer f => .ok (.integer f, [])
  | .float f => .ok (.float f, [])
  | .decimal r => .ok (.decimal r, [])
  | .date r => .ok (.date r, [])
  | .timestamp r => .ok (.timestamp r, [])
  | .bool f => .ok (.bool f, [])
  | .bytes f => .ok (.bytes f, [])
  | .key f => .ok (.key f, [])
  | .enum (.named name) rules r => .ok (.enum name rules r, [])
  | .enum (.inline decl) rules r => do
    let node ← enum file owner.childNest { decl with name := inlineName property decl.name }
    return (.enum { schema := node.head.nameInPackage } rules r, [.enum node])
  | .object (.named name) flatten => .ok (.object name flatten, [])
  | .object (.inline decl) flatten => do
    let node ← object file owner.childNest (inlineName property decl.name) decl
    return (.object { schema := node.head.nameInPackage } flatten, [.object node])
  | .oneof (.named name) => .ok (.oneof name, [])
  | .oneof (.inline decl) => do
    let node ← oneof file owner.childNest (inlineName property decl.name) decl
    return (.oneof { schema := node.head.nameInPackage }, [.oneof node])
  | .polymorph (.named name) => .ok (.polymorph name, [])
  | .polymorph (.inline decl) => do
    let node ← polymorph file owner.childNest { decl with name := inlineName property decl.name }
    return (.polymorph { schema := node.head.nameInPackage }, [.polymorph node])
  | .array items rules singleForm => do
    let (item, hoisted) ← field file owner property items
    return (.array item rules singleForm, hoisted)
  | .map items rules => do
    let (item, hoisted) ← field file owner property items
    return (.map item rules, hoisted)
  | .any f => .ok (.any f, [])

/-- One property, given what comes before it. -/
def property (file : String) (owner : Head) (names : List String) (numbers : List Int)
    (place : Nat) : PropertyDecl → Except NodeError (PropertyNode × List SchemaNode)
  | { name, description, required, optional, entityKey, number, schema, span } => do
    let n ← propertyNumber file owner.name names numbers place name number span
    let (kind, hoisted) ← field file owner name schema
    return ({ name, description, number := n, required, optional, entityKey, field := kind, span },
      hoisted)

/-- Properties in turn, and the schemas they declare in place. -/
def properties (file : String) (owner : Head) : (names : List String) → (numbers : List Int) →
    (place : Nat) → List PropertyDecl → Except NodeError (List PropertyNode × List SchemaNode)
  | _, _, _, [] => .ok ([], [])
  | names, numbers, place, decl :: rest => do
    let (node, hoisted) ← property file owner names numbers place decl
    let (nodes, others) ←
      properties file owner (node.name :: names) (node.number :: numbers) (place + 1) rest
    return (node :: nodes, hoisted ++ others)

/-- An object under a name that need not be the one declared. -/
def object (file : String) (nest : List String) (name : String) :
    ObjectDecl → Except NodeError ObjectNode
  | { name := _, description, properties := props, schemas, polymorphMember, span } => do
    requireName file "object" name span
    let head : Head := ⟨name, nest, description, file, span⟩
    let declared ← declarations file head.childNest schemas
    let (nodes, hoisted) ← properties file head [] [] 1 props
    return { head, properties := nodes, nested := declared ++ hoisted, polymorphMember }

def oneof (file : String) (nest : List String) (name : String) :
    OneofDecl → Except NodeError OneofNode
  | { name := _, description, properties := props, schemas, span } => do
    requireName file "oneof" name span
    let head : Head := ⟨name, nest, description, file, span⟩
    let declared ← declarations file head.childNest schemas
    let (nodes, hoisted) ← properties file head [] [] 1 props
    checkBranches file name nodes
    return { head, properties := nodes, nested := declared ++ hoisted }

def declaration (file : String) (nest : List String) : Declaration → Except NodeError SchemaNode
  | .object decl => do return .object (← object file nest decl.name decl)
  | .oneof decl => do return .oneof (← oneof file nest decl.name decl)
  | .enum decl => do return .enum (← enum file nest decl)
  | .polymorph decl => do return .polymorph (← polymorph file nest decl)

def declarations (file : String) (nest : List String) :
    List Declaration → Except NodeError (List SchemaNode)
  | [] => .ok []
  | decl :: rest => do
    let node ← declaration file nest decl
    let nodes ← declarations file nest rest
    return node :: nodes

end

/-! ## Services and topics -/

/-- An object at the top of its package, made for a method or a topic. -/
def payload (file name : String) (span : Span) (props : List PropertyDecl) :
    Except NodeError ObjectNode := do
  let head : Head := { name, file, span }
  let (nodes, hoisted) ← properties file head [] [] 1 props
  return { head, properties := nodes, nested := hoisted }

def method (file : String) (decl : MethodDecl) : Except NodeError MethodNode := do
  requireName file "method" decl.name decl.span
  let request ← payload file (decl.name ++ "Request") decl.span decl.request
  let response ← payload file (decl.name ++ "Response") decl.span decl.response
  return { name := decl.name, description := decl.description, httpMethod := decl.httpMethod
           httpPath := decl.httpPath, request, response, span := decl.span }

def nonBlank? (name : Option String) : Option String :=
  name.filter fun n => !Text.isBlank n

def service (file : String) (decl : ServiceDecl) : Except NodeError ServiceNode :=
  match nonBlank? decl.name with
  | none => fault file decl.span (.missingName "service")
  | some name => do
    let methods ← decl.methods.mapM (method file)
    return { head := { name, description := decl.description, file, span := decl.span }
             basePath := decl.basePath, methods }

def topicMessage (file : String) (decl : TopicMessageDecl) : Except NodeError TopicMessageNode := do
  requireName file "topic message" decl.name decl.span
  let message ← payload file (decl.name ++ "Message") decl.span decl.properties
  return { name := decl.name, description := decl.description, message, span := decl.span }

def topicParts : TopicKind → TopicShape × List TopicMessageDecl
  | .publish messages => (.publish, messages)
  | .upsert message => (.upsert, [message])
  | .reqRes request reply => (.reqRes, [request, reply])

def topic (file : String) (decl : TopicDecl) : Except NodeError TopicNode := do
  requireName file "topic" decl.name decl.span
  let (shape, decls) := topicParts decl.kind
  if decls.isEmpty then fault file decl.span (.noMessages decl.name)
  else
    let messages ← decls.mapM (topicMessage file)
    return { head := { name := decl.name, description := decl.description, file, span := decl.span }
             shape, messages }

end Build

/-! ## The values of an enum

Value 0 is the unspecified one.  A first option of that name takes its place, and
otherwise it is added in front.  The other options are numbered from 1. -/

structure EnumValue where
  name : String
  number : Int
  description : Option String := none
  span : Span := {}
deriving DecidableEq, Repr

namespace EnumNode

def unspecifiedName (node : EnumNode) : String :=
  node.valuePrefix ++ Build.unspecified

/-- The options that come after value 0. -/
def numberedOptions (node : EnumNode) : List EnumOption :=
  match node.options with
  | [] => []
  | first :: rest =>
    if EnumTable.prefixed node.valuePrefix first.name = node.unspecifiedName then rest
    else first :: rest

def zeroValue (node : EnumNode) : EnumValue :=
  match node.options with
  | [] => ⟨node.unspecifiedName, 0, none, node.head.span⟩
  | first :: _ =>
    if EnumTable.prefixed node.valuePrefix first.name = node.unspecifiedName then
      ⟨node.unspecifiedName, 0, first.description, first.span⟩
    else ⟨node.unspecifiedName, 0, none, node.head.span⟩

def values (node : EnumNode) : List EnumValue :=
  node.zeroValue :: (node.numberedOptions.zipIdx 1).map fun (option, i) =>
    ⟨EnumTable.prefixed node.valuePrefix option.name, i, option.description, option.span⟩

def table (node : EnumNode) : EnumTable :=
  ⟨node.valuePrefix, node.values.map fun v => (v.name, v.number)⟩

end EnumNode
end Schematic
