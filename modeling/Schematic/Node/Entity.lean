import Schematic.Node.Build

/-!
# Entities written out

An entity `E` becomes, in this order, the objects `EKeys` and `EData`, the enum
`EStatus`, the object `EState`, the oneof `EEventType` with one branch per event,
the object `EEvent`, the service `EQuery`, a service per group of commands, the
topic `EPublish`, a topic per summary, and the schemas declared inside the entity.

The numbers written here are part of the wire format of every entity.
-/

namespace Schematic
namespace Entity

/-- An entity's name in the three forms that its parts use. -/
structure Names where
  camel : String
  snake : String
  lower : String
deriving Repr

def Names.ofDecl (name : String) : Names :=
  let camel := Case.upperCamel name
  ⟨camel, Case.snake camel, Case.lowerCamel camel⟩

namespace Names

variable (names : Names)

def schema (ending : String) : String := names.camel ++ ending
def ref (ending : String) : RefName := { schema := names.schema ending }
def part (p : EntityPart) : Option EntityRef := some ⟨names.snake, p⟩
def statusPrefix : String := Case.upperSnake names.camel ++ "_STATUS_"

end Names

/-! ## Generated properties -/

def holding (target : RefName) : FieldSchema := .object (.named target) false
def flattening (target : RefName) : FieldSchema := .object (.named target) true
def listing (target : RefName) : FieldSchema := .array (holding target) {} none

def numbered (name : String) (number : Int32) (required : Bool) (schema : FieldSchema) : PropertyDecl :=
  { name, number := some number, required, schema }

def unnumbered (name : String) (schema : FieldSchema) : PropertyDecl :=
  { name, schema }

/-- A key as it stands in a request: required, and numbered by its place. -/
def requestKey (key : PropertyDecl) : PropertyDecl :=
  { key with number := none, required := true, optional := false }

def primaryKeys (decl : EntityDecl) : List PropertyDecl :=
  (decl.keys.filter fun k => k.entityKey.any (·.primary)).map requestKey

def shardKeys (decl : EntityDecl) : List PropertyDecl :=
  (decl.keys.filter fun k => k.entityKey.any fun e => e.shard && !e.primary).map requestKey

/-! ## Status filters -/

/-- The filters without their prefix.  Each must name a declared status. -/
def statusFilters (file : String) (decl : EntityDecl) (names : Names) (query : EntityQuery) :
    List String → Except NodeError (List String)
  | [] => .ok []
  | filter :: rest => do
    let bare := Build.bareName names.statusPrefix filter
    if (decl.status.map StatusDecl.name).contains bare then
      let others ← statusFilters file decl names query rest
      return bare :: others
    else .error (.unknownStatusFilter names.camel filter ⟨file, query.span⟩)

def defaultFilters (file : String) (decl : EntityDecl) (names : Names) :
    Except NodeError (List String) :=
  match decl.query with
  | none => .ok []
  | some query => statusFilters file decl names query query.defaultStatusFilter

/-! ## Schemas -/

/-- The object of a part whose properties are declared with the entity. -/
def declaredPart (file : String) (decl : EntityDecl) (names : Names) (ending : String)
    (part : EntityPart) (properties : List PropertyDecl) : Except NodeError ObjectNode := do
  let node ← Build.object file [] (names.schema ending)
    { name := names.schema ending, properties, span := decl.span }
  return { node with entity := names.part part }

/-- The object of a part whose properties are written for it. -/
def generatedPart (file : String) (decl : EntityDecl) (names : Names) (ending : String)
    (part : EntityPart) (description : Option String) (properties : List PropertyDecl) :
    Except NodeError ObjectNode := do
  let node ← Build.payload file (names.schema ending) decl.span properties
  return { node with head := { node.head with description }, entity := names.part part }

def keys (file : String) (decl : EntityDecl) (names : Names) : Except NodeError ObjectNode :=
  declaredPart file decl names "Keys" .keys decl.keys

def data (file : String) (decl : EntityDecl) (names : Names) : Except NodeError ObjectNode :=
  declaredPart file decl names "Data" .data decl.data

def statusDecl (decl : EntityDecl) (names : Names) : EnumDecl :=
  { name := names.schema "Status"
    valuePrefix := some names.statusPrefix
    options := decl.status.map fun s => ⟨s.name, s.description, s.span⟩
    span := decl.span }

def status (file : String) (decl : EntityDecl) (names : Names) : Except NodeError EnumNode := do
  let node ← Build.enum file [] (statusDecl decl names)
  return { node with entity := names.part .status }

def stateProperties (names : Names) (filters : List String) : List PropertyDecl :=
  [numbered "metadata" 1 true (holding WellKnown.stateMetadata),
    numbered "keys" 2 true (flattening (names.ref "Keys")),
    numbered "data" 3 true (holding (names.ref "Data")),
    numbered "status" 4 true (.enum (.named (names.ref "Status")) { definedOnly := true }
      (some { filterable := true, defaultFilters := filters }))]

def state (file : String) (decl : EntityDecl) (names : Names) (filters : List String) :
    Except NodeError ObjectNode :=
  generatedPart file decl names "State" .state decl.description (stateProperties names filters)

/-- The object of each event, nested in the oneof, with the branch that holds it. -/
def branches (file : String) (nest : List String) : (place : Nat) → List EventDecl →
    Except NodeError (List (ObjectNode × PropertyDecl))
  | _, [] => .ok []
  | place, event :: rest => do
    let name := Case.upperCamel event.name
    let node ← Build.object file nest name
      { name, description := event.description, properties := event.properties, span := event.span }
    let branch : PropertyDecl :=
      { name := Case.lowerCamel name, description := event.description
        number := some (Int32.ofNat place)
        schema := holding { schema := node.head.nameInPackage }, span := event.span }
    let others ← branches file nest (place + 1) rest
    return (node, branch) :: others

def eventType (file : String) (decl : EntityDecl) (names : Names) : Except NodeError OneofNode := do
  let head : Head := { name := names.schema "EventType", file, span := decl.span }
  let parts ← branches file head.childNest 1 decl.events
  let (props, hoisted) ← Build.properties file head [] [] 1 (parts.map Prod.snd)
  return { head, properties := props
           nested := parts.map (fun part => SchemaNode.object part.1) ++ hoisted
           entity := names.part .eventType }

def eventProperties (names : Names) : List PropertyDecl :=
  [numbered "metadata" 1 true (holding WellKnown.eventMetadata),
    numbered "keys" 2 true (flattening (names.ref "Keys")),
    numbered "event" 3 true (.oneof (.named (names.ref "EventType")))]

def event (file : String) (decl : EntityDecl) (names : Names) : Except NodeError ObjectNode :=
  generatedPart file decl names "Event" .event none (eventProperties names)

/-! ## Services -/

def queryMethod (file : String) (span : Span) (name path : String) (kind : QueryKind)
    (request response : List PropertyDecl) : Except NodeError MethodNode := do
  let request ← Build.payload file (name ++ "Request") span request
  let response ← Build.payload file (name ++ "Response") span response
  return { name, httpPath := path, request, response, query := some kind, span }

/-- One path segment per primary key. -/
def keyPath (decl : EntityDecl) : String :=
  String.join ((primaryKeys decl).map fun k => "/\x7b" ++ k.name ++ "\x7d")

def pageAndQuery : List PropertyDecl :=
  [unnumbered "page" (holding WellKnown.pageRequest), unnumbered "query" (holding WellKnown.queryRequest)]

def getResponse (decl : EntityDecl) (names : Names) : List PropertyDecl :=
  numbered names.lower 1 true (holding (names.ref "State")) ::
    if decl.query.any (·.eventsInGet) then
      [numbered "events" 2 false (listing (names.ref "Event"))]
    else []

def listResponse (names : Names) : List PropertyDecl :=
  [numbered (names.lower ++ "s") 1 false (listing (names.ref "State")),
    numbered "page" 2 false (holding WellKnown.pageResponse)]

def eventsResponse (names : Names) : List PropertyDecl :=
  [numbered "events" 1 false (listing (names.ref "Event")),
    numbered "page" 2 false (holding WellKnown.pageResponse)]

def queryService (file : String) (decl : EntityDecl) (names : Names) :
    Except NodeError ServiceNode := do
  let get ← queryMethod file decl.span (names.schema "Get") ("/q" ++ keyPath decl) .get
    (primaryKeys decl) (getResponse decl names)
  let list ← queryMethod file decl.span (names.schema "List") "/q" .list
    (shardKeys decl ++ pageAndQuery) (listResponse names)
  let events ← queryMethod file decl.span (names.schema "Events")
    ("/q" ++ keyPath decl ++ "/events") .listEvents
    (primaryKeys decl ++ pageAndQuery) (eventsResponse names)
  return { head := { name := names.schema "Query", file, span := decl.span }
           basePath := decl.baseUrlPath
           methods := [get, list, events]
           entity := some (.query names.snake) }

def commandService (file : String) (decl : EntityDecl) (names : Names) (group : CommandGroup) :
    Except NodeError ServiceNode := do
  let methods ← group.methods.mapM (Build.method file)
  return { head :=
             { name := (Build.nonBlank? group.name).getD (names.schema "Command")
               description := group.description, file, span := group.span }
           basePath := group.basePath.getD decl.baseUrlPath
           methods
           entity := some (.command names.snake) }

/-! ## Topics -/

/-- A topic with a single message. -/
def messageTopic (file : String) (span : Span) (topic name : String) (description : Option String)
    (shape : TopicShape) (properties : List PropertyDecl) : Except NodeError TopicNode := do
  let message ← Build.payload file (name ++ "Message") span properties
  return { head := { name := topic, description, file, span }
           shape
           messages := [{ name, description, message, span }] }

def publishProperties (names : Names) : List PropertyDecl :=
  [numbered "metadata" 1 true (holding WellKnown.eventPublishMetadata),
    numbered "keys" 2 true (holding (names.ref "Keys")),
    numbered "event" 3 true (.oneof (.named (names.ref "EventType"))),
    numbered "data" 4 true (holding (names.ref "Data")),
    numbered "status" 5 true (.enum (.named (names.ref "Status")) {} none)]

def publishTopic (file : String) (decl : EntityDecl) (names : Names) : Except NodeError TopicNode :=
  messageTopic file decl.span (names.schema "Publish") (names.schema "Event") none .publish
    (publishProperties names)

def summaryProperties (names : Names) (summary : SummaryDecl) : List PropertyDecl :=
  numbered "upsert" 1 true (holding WellKnown.upsertMetadata) ::
    numbered "keys" 2 true (holding (names.ref "Keys")) :: summary.properties

def summaryTopic (file : String) (names : Names) (summary : SummaryDecl) :
    Except NodeError TopicNode :=
  messageTopic file summary.span summary.name summary.name summary.description .upsert
    (summaryProperties names summary)

/-! ## The whole entity -/

/-- The first summary that bears the name of an earlier one. -/
def duplicateSummary? : (seen : List String) → List SummaryDecl → Option SummaryDecl
  | _, [] => none
  | seen, summary :: rest =>
    if seen.contains summary.name then some summary
    else duplicateSummary? (summary.name :: seen) rest

/-- What must hold before any part is built. -/
def check (file : String) (decl : EntityDecl) (names : Names) : Except NodeError Unit :=
  if decl.events.isEmpty then Build.fault file decl.span (.noEvents names.camel)
  else
    match duplicateSummary? [] decl.summaries with
    | some summary => Build.fault file summary.span (.duplicateSummary names.camel summary.name)
    | none =>
      if (primaryKeys decl).isEmpty then Build.fault file decl.span (.noPrimaryKey names.camel)
      else .ok ()

def expand (file : String) (decl : EntityDecl) : Except NodeError (List RootNode) := do
  Build.requireName file "entity" decl.name decl.span
  let names := Names.ofDecl decl.name
  check file decl names
  let filters ← defaultFilters file decl names
  let keys ← keys file decl names
  let data ← data file decl names
  let status ← status file decl names
  let state ← state file decl names filters
  let eventType ← eventType file decl names
  let event ← event file decl names
  let query ← queryService file decl names
  let commands ← decl.commands.mapM (commandService file decl names)
  let publish ← publishTopic file decl names
  let summaries ← decl.summaries.mapM (summaryTopic file names)
  let schemas ← Build.declarations file [] decl.schemas
  return [.schema (.object keys), .schema (.object data), .schema (.enum status),
      .schema (.object state), .schema (.oneof eventType), .schema (.object event), .service query] ++
    commands.map .service ++ [.topic publish] ++ summaries.map .topic ++ schemas.map .schema

end Entity
end Schematic
