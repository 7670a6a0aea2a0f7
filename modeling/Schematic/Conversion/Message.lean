import Schematic.Conversion.Field
import Schematic.Summary

/-!
# Messages, enums and services from nodes

Errors, drafts and needed files of a node are three functions of the node.  Drafts
leave out the properties that have an error, and are used only where there is none.
-/

namespace Schematic
namespace Conversion

def report (c : Conversion) (span : Span) (e : ConvertError) : Diagnostic SourceError :=
  .ofPlace c.path span (.unconvertible e)

/-! ## Properties -/

/-- The properties that have no error, with their parts. -/
def parts (c : Conversion) (message : String) (oneof : Option Int) (properties : List PropertyNode) :
    List (PropertyNode × FieldPart) :=
  properties.filterMap fun p =>
    match c.property message oneof p with
    | .ok part => some (p, part)
    | .error _ => none

def propertyErrors (c : Conversion) (oneof : Option Int) (properties : List PropertyNode) :
    List (Diagnostic SourceError) :=
  properties.filterMap fun p =>
    match c.property "" oneof p with
    | .ok _ => none
    | .error e => some (c.report p.span e)

def partImports (c : Conversion) (oneof : Option Int) (properties : List PropertyNode) : List String :=
  (c.parts "" oneof properties).flatMap fun (_, part) => part.imports

def fields (parts : List (PropertyNode × FieldPart)) : List (Described FieldDescriptor) :=
  parts.map fun (p, part) => ⟨part.field, p.description, p.span⟩

def entries (parts : List (PropertyNode × FieldPart)) : List MessageDraft :=
  parts.filterMap fun (_, part) => part.entry

/-- The places of the fields that get a oneof of their own. -/
def synthetic (parts : List (PropertyNode × FieldPart)) : List Nat :=
  parts.zipIdx.filterMap fun ((_, part), i) => if part.synthetic then some i else none

/-! ## Membership -/

/-- A polymorph by its full name. -/
def polymorphName (name : String) : RefName :=
  match Text.cutLast? '.' name with
  | some (package, schema) => ⟨some package, schema⟩
  | none => ⟨none, name⟩

/-- An object may call itself a member of a polymorph that lists it. -/
def checkMember (c : Conversion) (head : Head) (polymorph : String) : Except ConvertError Unit := do
  let found ← c.lookup (polymorphName polymorph)
  match found.kind with
  | .polymorph members =>
    let own := c.package ++ "." ++ head.nameInPackage
    if members.contains own then return ()
    else throw (.notPolymorphMember own found.fullName)
  | kind => throw (.wrongKind head.name polymorph "polymorph" kind.name)

def memberErrors (c : Conversion) (head : Head) (polymorphs : List String) :
    List (Diagnostic SourceError) :=
  polymorphs.filterMap fun polymorph =>
    match c.checkMember head polymorph with
    | .ok _ => none
    | .error e => some (c.report head.span e)

/-! ## Options -/

def entityBody (entity : Option EntityRef) : OptionBody :=
  OptionBody.opt "entity"
    (fun e : EntityRef => .message [("entity", .string e.entity), ("part", .ident e.part.text)]) entity

def objectBody (entity : Option EntityRef) (polymorphs : List String) : OptionBody :=
  [("object", .message (entityBody entity ++
    if polymorphs.isEmpty then [] else [("polymorph_member", .list (polymorphs.map .string))]))]

def oneofBody (entity : Option EntityRef) : OptionBody :=
  [("oneof", .message (entityBody entity))]

def polymorphBody (members : List String) : OptionBody :=
  [("polymorph", .message [("members", .list (members.map .string))])]

/-! ## Schemas -/

def enumDraft (node : EnumNode) : EnumDraft :=
  { name := node.head.name
    description := node.head.description
    span := node.head.span
    values := node.values.map fun v => ⟨{ name := some v.name, number := some v.number }, v.description, v.span⟩
    options := node.entity.map fun e =>
      { uninterpreted := [Extension.enum.option (entityBody (some e))] } }

def polymorphDraft (node : PolymorphNode) : MessageDraft :=
  { name := node.head.name
    description := node.head.description
    span := node.head.span
    fields := [⟨valueField "value" 1
      { code := FieldType.message, typeName := some ("." ++ WellKnown.any.text) }, none, node.head.span⟩]
    options := some { uninterpreted := [Extension.message.option (polymorphBody node.members)] } }

/-- The enums among schemas. -/
def enumDrafts (nodes : List SchemaNode) : List EnumDraft :=
  nodes.filterMap fun
    | .enum node => some (enumDraft node)
    | _ => none

mutual

/-- The message of an object.  `outer` is the full name of what the message stands in:
the package, or the message around it. -/
def objectDraft (c : Conversion) (outer : String) : ObjectNode → MessageDraft
  | { head, properties, nested, entity, polymorphMember } =>
    let message := outer ++ "." ++ head.name
    let parts := c.parts message none properties
    { name := head.name
      description := head.description
      span := head.span
      fields := fields parts
      synthetic := synthetic parts
      nested := entries parts ++ messageDrafts c message nested
      enums := enumDrafts nested
      options := some { uninterpreted :=
        [Extension.message.option (objectBody entity polymorphMember)] } }

/-- The message of a oneof, whose fields all belong to one oneof named `type`. -/
def oneofDraft (c : Conversion) (outer : String) : OneofNode → MessageDraft
  | { head, properties, nested, entity } =>
    let message := outer ++ "." ++ head.name
    let parts := c.parts message (some 0) properties
    { name := head.name
      description := head.description
      span := head.span
      fields := fields parts
      oneofs := [⟨{ name := some "type" }, none, head.span⟩]
      synthetic := synthetic parts
      nested := entries parts ++ messageDrafts c message nested
      enums := enumDrafts nested
      options := some { uninterpreted := [Extension.message.option (oneofBody entity)] } }

/-- The messages among schemas. -/
def messageDrafts (c : Conversion) (outer : String) : List SchemaNode → List MessageDraft
  | [] => []
  | .object node :: rest => objectDraft c outer node :: messageDrafts c outer rest
  | .oneof node :: rest => oneofDraft c outer node :: messageDrafts c outer rest
  | .polymorph node :: rest => polymorphDraft node :: messageDrafts c outer rest
  | .enum _ :: rest => messageDrafts c outer rest

end

mutual

def objectErrors (c : Conversion) : ObjectNode → List (Diagnostic SourceError)
  | { head, properties, nested, polymorphMember, .. } =>
    c.memberErrors head polymorphMember ++ c.propertyErrors none properties ++ schemaErrorsList c nested

def oneofErrors (c : Conversion) : OneofNode → List (Diagnostic SourceError)
  | { properties, nested, .. } => c.propertyErrors (some 0) properties ++ schemaErrorsList c nested

def schemaErrors (c : Conversion) : SchemaNode → List (Diagnostic SourceError)
  | .object node => objectErrors c node
  | .oneof node => oneofErrors c node
  | .enum _ => []
  | .polymorph _ => []

def schemaErrorsList (c : Conversion) : List SchemaNode → List (Diagnostic SourceError)
  | [] => []
  | node :: rest => schemaErrors c node ++ schemaErrorsList c rest

end

mutual

def objectImports (c : Conversion) : ObjectNode → List String
  | { properties, nested, .. } =>
    Extension.message.file :: c.partImports none properties ++ schemaImportsList c nested

def oneofImports (c : Conversion) : OneofNode → List String
  | { properties, nested, .. } =>
    Extension.message.file :: c.partImports (some 0) properties ++ schemaImportsList c nested

/-- The files that a schema needs. -/
def schemaImports (c : Conversion) : SchemaNode → List String
  | .object node => objectImports c node
  | .oneof node => oneofImports c node
  | .enum node => if node.entity.isSome then [Extension.enum.file] else []
  | .polymorph _ => [WellKnown.anyFile, Extension.message.file]

def schemaImportsList (c : Conversion) : List SchemaNode → List String
  | [] => []
  | node :: rest => schemaImports c node ++ schemaImportsList c rest

end

/-! ## Services -/

def QueryKind.flag : QueryKind → String
  | .get => "get"
  | .list => "list"
  | .listEvents => "list_events"

def serviceEntityBody : ServiceEntity → OptionBody
  | .query entity => [("state_query", .message [("entity", .string entity)])]
  | .command entity => [("state_command", .message [("entity", .string entity)])]

def httpBody (service : ServiceNode) (method : MethodNode) : OptionBody :=
  (method.httpMethod.verb, .string (Text.withoutTrailing '/' service.basePath ++ method.httpPath)) ::
    if method.httpMethod = .get then [] else [("body", .string "*")]

def methodOptions (service : ServiceNode) (method : MethodNode) : List (Extension × OptionBody) :=
  (Extension.http, httpBody service method) ::
    (method.query.map fun kind =>
      (Extension.method, [("state_query", .message [(QueryKind.flag kind, .bool true)])])).toList

def methodDescriptor (package : String) (service : ServiceNode) (method : MethodNode) :
    MethodDescriptor :=
  { name := some method.name
    inputType := some ("." ++ package ++ "." ++ method.request.head.name)
    outputType := some ("." ++ package ++ "." ++ method.response.head.name)
    options := some { uninterpreted := (methodOptions service method).map fun (e, body) => e.option body } }

def serviceDraft (package : String) (node : ServiceNode) : ServiceDraft :=
  { name := node.head.name
    description := node.head.description
    span := node.head.span
    methods := node.methods.map fun m => ⟨methodDescriptor package node m, m.description, m.span⟩
    options := node.entity.map fun e =>
      { uninterpreted := [Extension.service.option (serviceEntityBody e)] } }

def serviceImports (c : Conversion) (node : ServiceNode) : List String :=
  (if node.entity.isSome then [Extension.service.file] else []) ++
    node.methods.flatMap (fun m => (methodOptions node m).map fun (e, _) => e.file) ++
    node.objects.flatMap c.objectImports

/-! ## Topics -/

def topicBody (node : TopicNode) : OptionBody :=
  [("topic_name", .string (Case.snake node.head.name)), (node.shape.text, .message [])]

/-- A topic is a service whose methods answer nothing. -/
def topicDraft (package : String) (node : TopicNode) : ServiceDraft :=
  { name := node.head.name ++ "Topic"
    description := node.head.description
    span := node.head.span
    methods := node.messages.map fun m =>
      ⟨{ name := some m.name
         inputType := some ("." ++ package ++ "." ++ m.message.head.name)
         outputType := some ("." ++ WellKnown.empty.text) }, m.description, m.span⟩
    options := some { uninterpreted := [Extension.messaging.option (topicBody node)] } }

def topicImports (c : Conversion) (node : TopicNode) : List String :=
  Extension.messaging.file :: WellKnown.emptyFile :: node.objects.flatMap c.objectImports

def rootErrors (c : Conversion) : RootNode → List (Diagnostic SourceError)
  | .schema node => c.schemaErrors node
  | .service node => node.objects.flatMap c.objectErrors
  | .topic node => node.objects.flatMap c.objectErrors

end Conversion
end Schematic
