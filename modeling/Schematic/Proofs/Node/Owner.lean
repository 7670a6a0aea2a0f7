import Schematic.Proofs.Node.Nesting
import Mathlib.Data.List.Forall2

/-!
# What declares properties

Objects, oneofs, polymorphs, requests, responses and the messages of topics each become a message.
In the order in which the messages stand, this is what they were declared with: the names that lead
to them and their properties.  A schema declared in place of a property belongs to what has the
property, and the property names it by its path.
-/

namespace Schematic

/-! ## Schemas declared in place -/

/-- The name of a schema declared in place of a property, or of the items of its collection. -/
def FieldSchema.inlineName? (property : String) : FieldSchema → Option String
  | .enum (.inline decl) _ _ => some (Build.inlineName property decl.name)
  | .object (.inline decl) _ => some (Build.inlineName property decl.name)
  | .oneof (.inline decl) => some (Build.inlineName property decl.name)
  | .polymorph (.inline decl) => some (Build.inlineName property decl.name)
  | .array items _ _ => items.inlineName? property
  | .map items _ => items.inlineName? property
  | _ => none

def FieldSchema.isMap : FieldSchema → Bool
  | .map .. => true
  | _ => false

def FieldNode.isMap : FieldNode → Bool
  | .map .. => true
  | _ => false

def PropertyDecl.isMap (p : PropertyDecl) : Bool := p.schema.isMap
def PropertyNode.isMap (n : PropertyNode) : Bool := n.field.isMap

def PropertyDecl.inlineName? (p : PropertyDecl) : Option String :=
  p.schema.inlineName? p.name

/-! ## Owners -/

/-- The names that lead to a message, its own last, and the properties it is declared with. -/
structure Owner where
  path : List String
  properties : List PropertyDecl

mutual

/-- What is declared in place of a property of what `nest` leads to. -/
def FieldSchema.owners (nest : List String) (property : String) : FieldSchema → List Owner
  | .object (.inline decl) _ => ObjectDecl.owners nest (Build.inlineName property decl.name) decl
  | .oneof (.inline decl) => OneofDecl.owners nest (Build.inlineName property decl.name) decl
  | .polymorph (.inline decl) => [⟨nest ++ [Build.inlineName property decl.name], []⟩]
  | .array items _ _ => FieldSchema.owners nest property items
  | .map items _ => FieldSchema.owners nest property items
  | _ => []

def PropertyDecl.owners (nest : List String) : PropertyDecl → List Owner
  | { name, schema, .. } => FieldSchema.owners nest name schema

def PropertyDecl.ownersList (nest : List String) : List PropertyDecl → List Owner
  | [] => []
  | p :: rest => PropertyDecl.owners nest p ++ PropertyDecl.ownersList nest rest

/-- An object under a name that need not be the one declared, then the schemas declared in it, then
those declared in place of its properties. -/
def ObjectDecl.owners (nest : List String) (name : String) : ObjectDecl → List Owner
  | { properties, schemas, .. } =>
    ⟨nest ++ [name], properties⟩ :: (Declaration.ownersList (nest ++ [name]) schemas ++
      PropertyDecl.ownersList (nest ++ [name]) properties)

def OneofDecl.owners (nest : List String) (name : String) : OneofDecl → List Owner
  | { properties, schemas, .. } =>
    ⟨nest ++ [name], properties⟩ :: (Declaration.ownersList (nest ++ [name]) schemas ++
      PropertyDecl.ownersList (nest ++ [name]) properties)

def Declaration.owners (nest : List String) : Declaration → List Owner
  | .object decl => ObjectDecl.owners nest decl.name decl
  | .oneof decl => OneofDecl.owners nest decl.name decl
  | .enum _ => []
  | .polymorph decl => [⟨nest ++ [decl.name], []⟩]

def Declaration.ownersList (nest : List String) : List Declaration → List Owner
  | [] => []
  | decl :: rest => Declaration.owners nest decl ++ Declaration.ownersList nest rest

end

namespace Owner

/-- A message with properties and no schemas beside those declared in their place. -/
def plain (nest : List String) (name : String) (properties : List PropertyDecl) : List Owner :=
  ⟨nest ++ [name], properties⟩ :: PropertyDecl.ownersList (nest ++ [name]) properties

def ofMethod (decl : MethodDecl) : List Owner :=
  plain [] (decl.name ++ "Request") decl.request ++ plain [] (decl.name ++ "Response") decl.response

def ofTopicMessage (decl : TopicMessageDecl) : List Owner :=
  plain [] (decl.name ++ "Message") decl.properties

/-! ## Owners of entities -/

section Entity

open Entity

/-- The schemas of an entity.  State and event type name other schemas only, so that nothing is
declared in place of their properties. -/
def ofEntitySchemas (decl : EntityDecl) (names : Names) : List Owner :=
  plain [] (names.schema "Keys") decl.keys ++ (plain [] (names.schema "Data") decl.data ++
    ([⟨[names.schema "State"], []⟩] ++
      ((⟨[names.schema "EventType"], []⟩ :: decl.events.flatMap fun event =>
        plain [names.schema "EventType"] (Case.upperCamel event.name) event.properties) ++
        (plain [] (names.schema "Event") (eventProperties names) ++
          Declaration.ownersList [] decl.schemas))))

/-- The branch of an event in the oneof that `nest` leads to. -/
def branch (nest : List String) (place : Nat) (event : EventDecl) : PropertyDecl :=
  { name := Case.lowerCamel (Case.upperCamel event.name), description := event.description
    number := some (Int32.ofNat place)
    schema := holding { schema := Text.join "." (nest ++ [Case.upperCamel event.name]) }
    span := event.span }

/-- The schemas of an entity with all their properties. -/
def ofEntityMain (decl : EntityDecl) (names : Names) : List Owner :=
  plain [] (names.schema "Keys") decl.keys ++ (plain [] (names.schema "Data") decl.data ++
    ([⟨[names.schema "State"], stateProperties names (keptFilters decl names)⟩] ++
      ((⟨[names.schema "EventType"],
          (decl.events.zipIdx 1).map fun x => branch [names.schema "EventType"] x.2 x.1⟩ ::
        decl.events.flatMap fun event =>
          plain [names.schema "EventType"] (Case.upperCamel event.name) event.properties) ++
        (plain [] (names.schema "Event") (eventProperties names) ++
          Declaration.ownersList [] decl.schemas))))

/-- Requests and responses of the queries of an entity. -/
def ofEntityQuery (decl : EntityDecl) (names : Names) : List Owner :=
  plain [] (names.schema "Get" ++ "Request") (primaryKeys decl) ++
    plain [] (names.schema "Get" ++ "Response") (getResponse decl names) ++
    (plain [] (names.schema "List" ++ "Request") (shardKeys decl ++ pageAndQuery) ++
      plain [] (names.schema "List" ++ "Response") (listResponse names) ++
      (plain [] (names.schema "Events" ++ "Request") (primaryKeys decl ++ pageAndQuery) ++
        plain [] (names.schema "Events" ++ "Response") (eventsResponse names)))

def ofEntityServices (decl : EntityDecl) (names : Names) : List Owner :=
  ofEntityQuery decl names ++ decl.commands.flatMap fun group => group.methods.flatMap ofMethod

def ofEntityTopics (decl : EntityDecl) (names : Names) : List Owner :=
  plain [] (names.schema "Event" ++ "Message") (publishProperties names) ++
    decl.summaries.flatMap fun summary =>
      plain [] (summary.name ++ "Message") (summaryProperties names summary)

end Entity

end Owner

/-! ## Owners of documents -/

/-- The messages that an element adds to the main file. -/
def Element.schemaOwners : Element → List Owner
  | .object decl => ObjectDecl.owners [] decl.name decl
  | .oneof decl => OneofDecl.owners [] decl.name decl
  | .polymorph decl => [⟨[decl.name], []⟩]
  | .entity decl => Owner.ofEntitySchemas decl (.ofDecl decl.name)
  | _ => []

/-- The messages that an element adds to the main file, with all their properties. -/
def Element.mainOwners : Element → List Owner
  | .entity decl => Owner.ofEntityMain decl (.ofDecl decl.name)
  | element => element.schemaOwners

def Element.serviceOwners : Element → List Owner
  | .service decl => decl.methods.flatMap Owner.ofMethod
  | .entity decl => Owner.ofEntityServices decl (.ofDecl decl.name)
  | _ => []

def Element.topicOwners : Element → List Owner
  | .topic decl => (Build.topicParts decl.kind).2.flatMap Owner.ofTopicMessage
  | .entity decl => Owner.ofEntityTopics decl (.ofDecl decl.name)
  | _ => []

/-! ## Nodes that become messages -/

/-- A node that becomes a message: the names that lead to it, its properties, and the schemas in it. -/
structure Holder where
  path : List String
  properties : List PropertyNode
  nested : List SchemaNode

mutual

def ObjectNode.holders : ObjectNode → List Holder
  | { head, properties, nested, .. } =>
    ⟨head.childNest, properties, nested⟩ :: SchemaNode.holdersList nested

def OneofNode.holders : OneofNode → List Holder
  | { head, properties, nested, .. } =>
    ⟨head.childNest, properties, nested⟩ :: SchemaNode.holdersList nested

def SchemaNode.holders : SchemaNode → List Holder
  | .object node => node.holders
  | .oneof node => node.holders
  | .enum _ => []
  | .polymorph node => [⟨node.head.childNest, [], []⟩]

def SchemaNode.holdersList : List SchemaNode → List Holder
  | [] => []
  | node :: rest => node.holders ++ SchemaNode.holdersList rest

end

theorem SchemaNode.holdersList_eq (nodes : List SchemaNode) :
    holdersList nodes = nodes.flatMap holders := by
  induction nodes with
  | nil => rfl
  | cons node rest ih => rw [holdersList, ih, List.flatMap_cons]

theorem SchemaNode.holdersList_append (a b : List SchemaNode) :
    holdersList (a ++ b) = holdersList a ++ holdersList b := by
  rw [holdersList_eq, holdersList_eq, holdersList_eq, List.flatMap_append]

/-! ## What declarations become -/

/-- A property of what `path` leads to, as a node.  A schema declared in its place is named by its
path and stands among `nested`. -/
structure PropertyDecl.Becomes (path : List String) (nested : List SchemaNode) (p : PropertyDecl)
    (n : PropertyNode) : Prop where
  name : n.name = p.name
  isMap : n.isMap = p.isMap
  inline : ∀ name, p.inlineName? = some name →
    n.field.target? = some { schema := Text.join "." (path ++ [name]) } ∧
      ∃ child ∈ nested, child.nameInPackage = Text.join "." (path ++ [name])

/-- Properties in turn, as many as are given. -/
def PropertyDecl.AllBecome (path : List String) (nested : List SchemaNode) :
    List PropertyDecl → List PropertyNode → Prop
  | [], _ => True
  | _ :: _, [] => False
  | p :: ps, n :: ns => p.Becomes path nested n ∧ PropertyDecl.AllBecome path nested ps ns

structure Owner.Becomes (o : Owner) (h : Holder) : Prop where
  path : h.path = o.path
  properties : PropertyDecl.AllBecome o.path h.nested o.properties h.properties

/-- Owners in turn, as nodes. -/
def Owner.AllBecome (owners : List Owner) (nodes : List SchemaNode) : Prop :=
  List.Forall₂ Owner.Becomes owners (SchemaNode.holdersList nodes)

/-! ## How nodes are built -/

/-- The properties of a node are built from those its owner was declared with, and what these declare
in place is nested in the node. -/
structure Owner.BuiltInto (o : Owner) (h : Holder) : Prop where
  path : h.path = o.path
  properties : ∃ file owner hoisted, Head.childNest owner = o.path ∧
    Build.properties file owner [] [] 1 o.properties = .ok (h.properties, hoisted) ∧
    hoisted ⊆ h.nested

/-- Owners in turn, as the nodes built from them. -/
def Owner.AllBuilt (owners : List Owner) (nodes : List SchemaNode) : Prop :=
  List.Forall₂ Owner.BuiltInto owners (SchemaNode.holdersList nodes)

namespace Owner

theorem AllBuilt.append {os os' : List Owner} {nodes nodes' : List SchemaNode}
    (h : AllBuilt os nodes) (h' : AllBuilt os' nodes') : AllBuilt (os ++ os') (nodes ++ nodes') := by
  rw [AllBuilt, SchemaNode.holdersList_append]
  exact List.rel_append h h'

/-- An object is built from its owner, and after it come the nodes of what it holds. -/
theorem AllBuilt.object {file : String} {node : ObjectNode} {path : List String}
    {properties : List PropertyDecl} {hoisted : List SchemaNode} {os : List Owner}
    (hpath : node.head.childNest = path)
    (hproperties : Build.properties file node.head [] [] 1 properties = .ok (node.properties, hoisted))
    (hsub : hoisted ⊆ node.nested) (hnested : AllBuilt os node.nested) :
    AllBuilt (⟨path, properties⟩ :: os) [.object node] := by
  obtain ⟨head, props, nested, entity, polymorphMember⟩ := node
  rw [AllBuilt, SchemaNode.holdersList_eq, List.flatMap_singleton, SchemaNode.holders,
    ObjectNode.holders]
  exact List.Forall₂.cons ⟨hpath, file, head, hoisted, hpath, hproperties, hsub⟩ hnested

theorem AllBuilt.oneof {file : String} {node : OneofNode} {path : List String}
    {properties : List PropertyDecl} {hoisted : List SchemaNode} {os : List Owner}
    (hpath : node.head.childNest = path)
    (hproperties : Build.properties file node.head [] [] 1 properties = .ok (node.properties, hoisted))
    (hsub : hoisted ⊆ node.nested) (hnested : AllBuilt os node.nested) :
    AllBuilt (⟨path, properties⟩ :: os) [.oneof node] := by
  obtain ⟨head, props, nested, entity⟩ := node
  rw [AllBuilt, SchemaNode.holdersList_eq, List.flatMap_singleton, SchemaNode.holders,
    OneofNode.holders]
  exact List.Forall₂.cons ⟨hpath, file, head, hoisted, hpath, hproperties, hsub⟩ hnested

theorem AllBuilt.polymorph {node : PolymorphNode} {path : List String}
    (hpath : node.head.childNest = path) : AllBuilt [⟨path, []⟩] [.polymorph node] :=
  List.Forall₂.cons ⟨hpath, "", node.head, [], hpath, rfl, List.Subset.refl _⟩ List.Forall₂.nil

theorem AllBuilt.enum (node : EnumNode) : AllBuilt [] [.enum node] :=
  List.Forall₂.nil

end Owner

/-! ## What schemas and properties become -/

/-- The schema of a property of what `path` leads to: its kind, and what it declares in place. -/
structure FieldSchema.Becomes (path : List String) (property : String) (schema : FieldSchema)
    (kind : FieldNode) (hoisted : List SchemaNode) : Prop where
  isMap : kind.isMap = schema.isMap
  inline : ∀ name, schema.inlineName? property = some name →
    kind.target? = some { schema := Text.join "." (path ++ [name]) } ∧
      ∃ child ∈ hoisted, child.nameInPackage = Text.join "." (path ++ [name])
  owners : Owner.AllBuilt (schema.owners path property) hoisted

theorem PropertyDecl.Becomes.mono {path : List String} {nested nested' : List SchemaNode}
    {p : PropertyDecl} {n : PropertyNode} (h : p.Becomes path nested n) (hsub : nested ⊆ nested') :
    p.Becomes path nested' n where
  name := h.name
  isMap := h.isMap
  inline name hname := by
    obtain ⟨htarget, child, hchild, heq⟩ := h.inline name hname
    exact ⟨htarget, child, hsub hchild, heq⟩

theorem PropertyDecl.AllBecome.mono {path : List String} {nested nested' : List SchemaNode}
    (hsub : nested ⊆ nested') : ∀ {ps : List PropertyDecl} {ns : List PropertyNode},
      PropertyDecl.AllBecome path nested ps ns → PropertyDecl.AllBecome path nested' ps ns
  | [], _, _ => trivial
  | _ :: _, [], h => h
  | _ :: _, _ :: _, ⟨hp, hps⟩ => ⟨hp.mono hsub, PropertyDecl.AllBecome.mono hsub hps⟩

theorem FieldSchema.Becomes.plain {path : List String} {property : String} {schema : FieldSchema}
    {kind : FieldNode} (hmap : kind.isMap = schema.isMap) (hinline : schema.inlineName? property = none)
    (howners : schema.owners path property = []) : schema.Becomes path property kind [] where
  isMap := hmap
  inline name hname := by
    rw [hinline] at hname
    cases hname
  owners := by
    rw [howners]
    exact List.Forall₂.nil

/-- A schema declared in place is the one that comes of it. -/
theorem FieldSchema.Becomes.hoisted {path : List String} {property name : String}
    {schema : FieldSchema} {kind : FieldNode} {node : SchemaNode} (hmap : kind.isMap = schema.isMap)
    (hinline : schema.inlineName? property = some name)
    (htarget : kind.target? = some { schema := node.nameInPackage })
    (hpath : node.head.childNest = path ++ [name])
    (howners : Owner.AllBuilt (schema.owners path property) [node]) :
    schema.Becomes path property kind [node] where
  isMap := hmap
  inline name' hname' := by
    rw [hinline] at hname'
    cases hname'
    have hname : node.nameInPackage = Text.join "." (path ++ [name]) := congrArg (Text.join ".") hpath
    rw [htarget, hname]
    exact ⟨rfl, node, List.mem_singleton_self node, hname⟩
  owners := howners

namespace Build

variable {file : String} {nest : List String}

theorem enum_childNest {decl : EnumDecl} {node : EnumNode} (h : enum file nest decl = .ok node) :
    node.head.childNest = nest ++ [decl.name] := by
  obtain ⟨_, -, h⟩ := bind_eq_ok h
  obtain ⟨_, -, h⟩ := bind_eq_ok h
  cases h
  rfl

theorem polymorph_childNest {decl : PolymorphDecl} {node : PolymorphNode}
    (h : polymorph file nest decl = .ok node) : node.head.childNest = nest ++ [decl.name] := by
  obtain ⟨_, -, h⟩ := bind_eq_ok h
  cases h
  rfl

theorem object_childNest {name : String} {decl : ObjectDecl} {node : ObjectNode}
    (h : object file nest name decl = .ok node) : node.head.childNest = nest ++ [name] := by
  obtain ⟨_, description, props, schemas, polymorphMember, span⟩ := decl
  rw [object] at h
  obtain ⟨_, -, h⟩ := bind_eq_ok h
  obtain ⟨declared, -, h⟩ := bind_eq_ok h
  obtain ⟨⟨nodes, hoisted⟩, -, h⟩ := bind_eq_ok h
  cases h
  rfl

theorem oneof_childNest {name : String} {decl : OneofDecl} {node : OneofNode}
    (h : oneof file nest name decl = .ok node) : node.head.childNest = nest ++ [name] := by
  obtain ⟨_, description, props, schemas, span⟩ := decl
  rw [oneof] at h
  obtain ⟨_, -, h⟩ := bind_eq_ok h
  obtain ⟨declared, -, h⟩ := bind_eq_ok h
  obtain ⟨⟨nodes, hoisted⟩, -, h⟩ := bind_eq_ok h
  obtain ⟨_, -, h⟩ := bind_eq_ok h
  cases h
  rfl

mutual

theorem field_becomes {owner : Head} {property : String} : (schema : FieldSchema) →
    ∀ {kind hoisted}, field file owner property schema = .ok (kind, hoisted) →
      schema.Becomes owner.childNest property kind hoisted
  | .string _, _, _, h => by cases h; exact .plain rfl rfl rfl
  | .integer _, _, _, h => by cases h; exact .plain rfl rfl rfl
  | .float _, _, _, h => by cases h; exact .plain rfl rfl rfl
  | .decimal _, _, _, h => by cases h; exact .plain rfl rfl rfl
  | .date _, _, _, h => by cases h; exact .plain rfl rfl rfl
  | .timestamp _, _, _, h => by cases h; exact .plain rfl rfl rfl
  | .bool _, _, _, h => by cases h; exact .plain rfl rfl rfl
  | .bytes _, _, _, h => by cases h; exact .plain rfl rfl rfl
  | .key _, _, _, h => by cases h; exact .plain rfl rfl rfl
  | .any _, _, _, h => by cases h; exact .plain rfl rfl rfl
  | .enum (.named _) _ _, _, _, h => by cases h; exact .plain rfl rfl rfl
  | .object (.named _) _, _, _, h => by cases h; exact .plain rfl rfl rfl
  | .oneof (.named _), _, _, h => by cases h; exact .plain rfl rfl rfl
  | .polymorph (.named _), _, _, h => by cases h; exact .plain rfl rfl rfl
  | .enum (.inline decl) _ _, _, _, h => by
      rw [field] at h
      obtain ⟨node, hnode, h⟩ := bind_eq_ok h
      cases h
      exact .hoisted rfl rfl rfl (enum_childNest hnode) (.enum node)
  | .object (.inline decl) _, _, _, h => by
      rw [field] at h
      obtain ⟨node, hnode, h⟩ := bind_eq_ok h
      cases h
      exact .hoisted rfl rfl rfl (object_childNest hnode) (object_built decl hnode)
  | .oneof (.inline decl), _, _, h => by
      rw [field] at h
      obtain ⟨node, hnode, h⟩ := bind_eq_ok h
      cases h
      exact .hoisted rfl rfl rfl (oneof_childNest hnode) (oneof_built decl hnode)
  | .polymorph (.inline decl), _, _, h => by
      rw [field] at h
      obtain ⟨node, hnode, h⟩ := bind_eq_ok h
      cases h
      exact .hoisted rfl rfl rfl (polymorph_childNest hnode) (.polymorph (polymorph_childNest hnode))
  | .array items _ _, _, _, h => by
      rw [field] at h
      obtain ⟨⟨item, hoisted⟩, hitem, h⟩ := bind_eq_ok h
      cases h
      have hitems := field_becomes items hitem
      exact ⟨rfl, hitems.inline, hitems.owners⟩
  | .map items _, _, _, h => by
      rw [field] at h
      obtain ⟨⟨item, hoisted⟩, hitem, h⟩ := bind_eq_ok h
      cases h
      have hitems := field_becomes items hitem
      exact ⟨rfl, hitems.inline, hitems.owners⟩

theorem property_built {owner : Head} {names : List String} {numbers : List Int} {place : Nat} :
    (decl : PropertyDecl) → ∀ {node hoisted},
      property file owner names numbers place decl = .ok (node, hoisted) →
        Owner.AllBuilt (decl.owners owner.childNest) hoisted
  | { name, description, required, optional, entityKey, number, schema, span }, _, _, h => by
      rw [property] at h
      obtain ⟨n, -, h⟩ := bind_eq_ok h
      obtain ⟨⟨kind, hoisted⟩, hkind, h⟩ := bind_eq_ok h
      cases h
      exact (field_becomes schema hkind).owners

theorem properties_built {owner : Head} {names : List String} {numbers : List Int}
    {place : Nat} : (decls : List PropertyDecl) → ∀ {nodes hoisted},
      properties file owner names numbers place decls = .ok (nodes, hoisted) →
        Owner.AllBuilt (PropertyDecl.ownersList owner.childNest decls) hoisted
  | [], _, _, h => by cases h; exact List.Forall₂.nil
  | decl :: rest, _, _, h => by
      rw [properties] at h
      obtain ⟨⟨node, hoisted⟩, hnode, h⟩ := bind_eq_ok h
      obtain ⟨⟨nodes, others⟩, hrest, h⟩ := bind_eq_ok h
      cases h
      exact (property_built decl hnode).append (properties_built rest hrest)

theorem object_built {nest : List String} {name : String} : (decl : ObjectDecl) →
    ∀ {node}, object file nest name decl = .ok node →
      Owner.AllBuilt (decl.owners nest name) [.object node]
  | { name := _, description, properties := props, schemas, polymorphMember, span }, _, h => by
      rw [object] at h
      obtain ⟨_, -, h⟩ := bind_eq_ok h
      obtain ⟨declared, hdeclared, h⟩ := bind_eq_ok h
      obtain ⟨⟨nodes, hoisted⟩, hprops, h⟩ := bind_eq_ok h
      cases h
      rw [ObjectDecl.owners]
      exact .object rfl hprops (List.subset_append_right _ _)
        ((declarations_built schemas hdeclared).append (properties_built props hprops))

theorem oneof_built {nest : List String} {name : String} : (decl : OneofDecl) →
    ∀ {node}, oneof file nest name decl = .ok node →
      Owner.AllBuilt (decl.owners nest name) [.oneof node]
  | { name := _, description, properties := props, schemas, span }, _, h => by
      rw [oneof] at h
      obtain ⟨_, -, h⟩ := bind_eq_ok h
      obtain ⟨declared, hdeclared, h⟩ := bind_eq_ok h
      obtain ⟨⟨nodes, hoisted⟩, hprops, h⟩ := bind_eq_ok h
      obtain ⟨_, -, h⟩ := bind_eq_ok h
      cases h
      rw [OneofDecl.owners]
      exact .oneof rfl hprops (List.subset_append_right _ _)
        ((declarations_built schemas hdeclared).append (properties_built props hprops))

theorem declaration_built {nest : List String} : (decl : Declaration) →
    ∀ {node}, declaration file nest decl = .ok node → Owner.AllBuilt (decl.owners nest) [node]
  | .object decl, _, h => by
      rw [declaration] at h
      obtain ⟨node, hnode, h⟩ := bind_eq_ok h
      cases h
      exact object_built decl hnode
  | .oneof decl, _, h => by
      rw [declaration] at h
      obtain ⟨node, hnode, h⟩ := bind_eq_ok h
      cases h
      exact oneof_built decl hnode
  | .enum decl, _, h => by
      rw [declaration] at h
      obtain ⟨node, hnode, h⟩ := bind_eq_ok h
      cases h
      exact .enum node
  | .polymorph decl, _, h => by
      rw [declaration] at h
      obtain ⟨node, hnode, h⟩ := bind_eq_ok h
      cases h
      exact .polymorph (polymorph_childNest hnode)

theorem declarations_built {nest : List String} : (decls : List Declaration) →
    ∀ {nodes}, declarations file nest decls = .ok nodes →
      Owner.AllBuilt (Declaration.ownersList nest decls) nodes
  | [], _, h => by cases h; exact List.Forall₂.nil
  | decl :: rest, _, h => by
      rw [declarations] at h
      obtain ⟨node, hnode, h⟩ := bind_eq_ok h
      obtain ⟨nodes, hrest, h⟩ := bind_eq_ok h
      cases h
      exact (declaration_built decl hnode).append (declarations_built rest hrest)

end

theorem property_becomes {owner : Head} {names : List String} {numbers : List Int} {place : Nat}
    {decl : PropertyDecl} {node : PropertyNode} {hoisted : List SchemaNode}
    (h : property file owner names numbers place decl = .ok (node, hoisted)) :
    decl.Becomes owner.childNest hoisted node := by
  cases decl
  rw [property] at h
  obtain ⟨n, -, h⟩ := bind_eq_ok h
  obtain ⟨⟨kind, hoisted⟩, hkind, h⟩ := bind_eq_ok h
  cases h
  have hschema := field_becomes _ hkind
  exact ⟨rfl, hschema.isMap, hschema.inline⟩

theorem properties_become {owner : Head} {names : List String} {numbers : List Int} {place : Nat}
    {decls : List PropertyDecl} {nodes : List PropertyNode} {hoisted : List SchemaNode}
    (h : properties file owner names numbers place decls = .ok (nodes, hoisted)) :
    PropertyDecl.AllBecome owner.childNest hoisted decls nodes := by
  induction decls generalizing names numbers place nodes hoisted with
  | nil => exact trivial
  | cons decl rest ih =>
      rw [properties] at h
      obtain ⟨⟨node, inner⟩, hnode, h⟩ := bind_eq_ok h
      obtain ⟨⟨others, outer⟩, hrest, h⟩ := bind_eq_ok h
      cases h
      exact ⟨(property_becomes hnode).mono (List.subset_append_left _ _),
        (ih hrest).mono (List.subset_append_right _ _)⟩

end Build

theorem Owner.BuiltInto.becomes {o : Owner} {h : Holder} (hbuilt : o.BuiltInto h) : o.Becomes h := by
  obtain ⟨file, owner, hoisted, hpath, hproperties, hsub⟩ := hbuilt.properties
  refine ⟨hbuilt.path, ?_⟩
  rw [← hpath]
  exact (Build.properties_become hproperties).mono hsub

namespace Build

variable {file : String}

/-! ## Services and topics -/

theorem payload_built {name : String} {span : Span} {props : List PropertyDecl}
    {node : ObjectNode} (h : payload file name span props = .ok node) :
    Owner.AllBuilt (Owner.plain [] name props) [.object node] := by
  obtain ⟨⟨nodes, hoisted⟩, hprops, h⟩ := bind_eq_ok h
  cases h
  exact .object rfl hprops (List.Subset.refl _) (properties_built props hprops)

theorem method_built {decl : MethodDecl} {node : MethodNode} (h : method file decl = .ok node) :
    Owner.AllBuilt (Owner.ofMethod decl) [.object node.request, .object node.response] := by
  obtain ⟨_, -, h⟩ := bind_eq_ok h
  obtain ⟨request, hrequest, h⟩ := bind_eq_ok h
  obtain ⟨response, hresponse, h⟩ := bind_eq_ok h
  cases h
  exact (payload_built hrequest).append (payload_built hresponse)

theorem topicMessage_built {decl : TopicMessageDecl} {node : TopicMessageNode}
    (h : topicMessage file decl = .ok node) :
    Owner.AllBuilt (Owner.ofTopicMessage decl) [.object node.message] := by
  obtain ⟨_, -, h⟩ := bind_eq_ok h
  obtain ⟨message, hmessage, h⟩ := bind_eq_ok h
  cases h
  exact payload_built hmessage

end Build

theorem Owner.allBuilt_mapM {α β ε : Type} {f : α → Except ε β} {l : List α} {bs : List β}
    (h : l.mapM f = .ok bs) {owners : α → List Owner} {nodes : β → List SchemaNode}
    (hf : ∀ a b, f a = .ok b → AllBuilt (owners a) (nodes b)) :
    AllBuilt (l.flatMap owners) (bs.flatMap nodes) := by
  induction l generalizing bs with
  | nil =>
      cases h
      exact List.Forall₂.nil
  | cons a rest ih =>
      rw [List.mapM_cons] at h
      obtain ⟨b, ha, h⟩ := bind_eq_ok h
      obtain ⟨others, hrest, h⟩ := bind_eq_ok h
      cases h
      exact (hf a b ha).append (ih hrest)

/-- The objects of services as schemas. -/
def RootNode.serviceSchemas (nodes : List RootNode) : List SchemaNode :=
  (services nodes).flatMap fun node => node.objects.map SchemaNode.object

def RootNode.topicSchemas (nodes : List RootNode) : List SchemaNode :=
  (topics nodes).flatMap fun node => node.objects.map SchemaNode.object

namespace RootNode

theorem schemas_append (a b : List RootNode) : schemas (a ++ b) = schemas a ++ schemas b :=
  List.filterMap_append

theorem schemas_map_schema (nodes : List SchemaNode) : schemas (nodes.map .schema) = nodes := by
  rw [schemas, List.filterMap_map]
  exact List.filterMap_some

theorem schemas_map_service (nodes : List ServiceNode) : schemas (nodes.map .service) = [] := by
  simp [schemas]

theorem schemas_map_topic (nodes : List TopicNode) : schemas (nodes.map .topic) = [] := by
  simp [schemas]

theorem serviceSchemas_append (a b : List RootNode) :
    serviceSchemas (a ++ b) = serviceSchemas a ++ serviceSchemas b := by
  rw [serviceSchemas, services, List.filterMap_append, List.flatMap_append]
  rfl

theorem serviceSchemas_map_schema (nodes : List SchemaNode) :
    serviceSchemas (nodes.map .schema) = [] := by
  simp [serviceSchemas, services]

theorem serviceSchemas_map_service (nodes : List ServiceNode) :
    serviceSchemas (nodes.map .service) =
      nodes.flatMap fun node => node.objects.map SchemaNode.object := by
  rw [serviceSchemas, services, List.filterMap_map]
  exact congrArg (List.flatMap _) List.filterMap_some

theorem serviceSchemas_map_topic (nodes : List TopicNode) :
    serviceSchemas (nodes.map .topic) = [] := by
  simp [serviceSchemas, services]

theorem topicSchemas_append (a b : List RootNode) :
    topicSchemas (a ++ b) = topicSchemas a ++ topicSchemas b := by
  rw [topicSchemas, topics, List.filterMap_append, List.flatMap_append]
  rfl

theorem topicSchemas_map_schema (nodes : List SchemaNode) :
    topicSchemas (nodes.map .schema) = [] := by
  simp [topicSchemas, topics]

theorem topicSchemas_map_service (nodes : List ServiceNode) :
    topicSchemas (nodes.map .service) = [] := by
  simp [topicSchemas, topics]

theorem topicSchemas_map_topic (nodes : List TopicNode) :
    topicSchemas (nodes.map .topic) =
      nodes.flatMap fun node => node.objects.map SchemaNode.object := by
  rw [topicSchemas, topics, List.filterMap_map]
  exact congrArg (List.flatMap _) List.filterMap_some

end RootNode

theorem ServiceNode.objects_map (node : ServiceNode) : node.objects.map SchemaNode.object =
    node.methods.flatMap fun m => [.object m.request, .object m.response] :=
  List.map_flatMap

theorem TopicNode.objects_map (node : TopicNode) :
    node.objects.map SchemaNode.object = node.messages.flatMap fun m => [.object m.message] := by
  rw [objects, List.map_map, List.map_eq_flatMap]
  rfl

theorem Build.service_built {file : String} {decl : ServiceDecl} {node : ServiceNode}
    (h : service file decl = .ok node) : Owner.AllBuilt (decl.methods.flatMap Owner.ofMethod)
      (node.objects.map SchemaNode.object) := by
  unfold service at h
  split at h
  · cases h
  · obtain ⟨methods, hmethods, h⟩ := bind_eq_ok h
    cases h
    rw [ServiceNode.objects_map]
    exact Owner.allBuilt_mapM hmethods fun _ _ => method_built

theorem Build.topic_built {file : String} {decl : TopicDecl} {node : TopicNode}
    (h : topic file decl = .ok node) :
    Owner.AllBuilt ((topicParts decl.kind).2.flatMap Owner.ofTopicMessage)
      (node.objects.map SchemaNode.object) := by
  obtain ⟨_, -, h⟩ := bind_eq_ok h
  dsimp only at h
  split at h
  · cases h
  · obtain ⟨messages, hmessages, h⟩ := bind_eq_ok h
    cases h
    rw [TopicNode.objects_map]
    exact Owner.allBuilt_mapM hmessages fun _ _ => topicMessage_built

/-! ## Entities -/

/-- Neither description nor part of an entity matters to what an object holds. -/
theorem Owner.AllBuilt.of_same {os : List Owner} {node node' : ObjectNode}
    (h : AllBuilt os [.object node]) (hpath : node'.head.childNest = node.head.childNest)
    (hproperties : node'.properties = node.properties) (hnested : node'.nested = node.nested) :
    AllBuilt os [.object node'] := by
  have hholders : node'.holders = node.holders := by
    obtain ⟨head, properties, nested, entity, polymorphMember⟩ := node
    obtain ⟨head', properties', nested', entity', polymorphMember'⟩ := node'
    cases hproperties
    cases hnested
    rw [ObjectNode.holders, ObjectNode.holders]
    exact congrArg (fun path => ⟨path, properties, nested⟩ :: SchemaNode.holdersList nested) hpath
  rw [AllBuilt, SchemaNode.holdersList, SchemaNode.holders, hholders]
  exact h

namespace Entity

open Build

variable {file : String} {decl : EntityDecl} {names : Names}

theorem declaredPart_built {ending : String} {part : EntityPart} {properties : List PropertyDecl}
    {node : ObjectNode} (h : declaredPart file decl names ending part properties = .ok node) :
    Owner.AllBuilt (Owner.plain [] (names.schema ending) properties) [.object node] := by
  obtain ⟨built, hbuilt, h⟩ := bind_eq_ok h
  cases h
  exact (object_built _ hbuilt).of_same rfl rfl rfl

theorem keys_built {node : ObjectNode} (h : keys file decl names = .ok node) :
    Owner.AllBuilt (Owner.plain [] (names.schema "Keys") decl.keys) [.object node] :=
  declaredPart_built h

theorem data_built {node : ObjectNode} (h : data file decl names = .ok node) :
    Owner.AllBuilt (Owner.plain [] (names.schema "Data") decl.data) [.object node] :=
  declaredPart_built h

theorem generatedPart_built {ending : String} {part : EntityPart} {description : Option String}
    {properties : List PropertyDecl} {node : ObjectNode}
    (h : generatedPart file decl names ending part description properties = .ok node) :
    Owner.AllBuilt (Owner.plain [] (names.schema ending) properties) [.object node] := by
  obtain ⟨built, hbuilt, h⟩ := bind_eq_ok h
  cases h
  exact (payload_built hbuilt).of_same rfl rfl rfl

theorem state_built {filters : List String} {node : ObjectNode}
    (h : state file decl names filters = .ok node) :
    Owner.AllBuilt [⟨[names.schema "State"], stateProperties names filters⟩] [.object node] :=
  generatedPart_built h

theorem event_built {node : ObjectNode} (h : event file decl names = .ok node) :
    Owner.AllBuilt (Owner.plain [] (names.schema "Event") (eventProperties names)) [.object node] :=
  generatedPart_built h

/-- Each event becomes an object, and its branch names it. -/
theorem branches_built {nest : List String} {place : Nat} {events : List EventDecl}
    {parts : List (ObjectNode × PropertyDecl)} (h : branches file nest place events = .ok parts) :
    Owner.AllBuilt
        (events.flatMap fun event => Owner.plain nest (Case.upperCamel event.name) event.properties)
        (parts.map fun part => SchemaNode.object part.1) ∧
      parts.map Prod.snd = (events.zipIdx place).map fun x => Owner.branch nest x.2 x.1 := by
  induction events generalizing place parts with
  | nil =>
      cases h
      exact ⟨List.Forall₂.nil, rfl⟩
  | cons event rest ih =>
      rw [branches] at h
      obtain ⟨node, hnode, h⟩ := bind_eq_ok h
      obtain ⟨others, hothers, h⟩ := bind_eq_ok h
      cases h
      obtain ⟨hbuilt, hbranches⟩ := ih hothers
      refine ⟨(object_built _ hnode).append hbuilt, ?_⟩
      rw [List.map_cons, hbranches, Head.nameInPackage, object_childNest hnode]
      rfl

theorem ownersList_branch (path nest : List String) (events : List (EventDecl × Nat)) :
    PropertyDecl.ownersList path (events.map fun x => Owner.branch nest x.2 x.1) = [] := by
  induction events with
  | nil => rfl
  | cons event rest ih => exact ih

theorem eventType_built {node : OneofNode} (h : eventType file decl names = .ok node) :
    Owner.AllBuilt
      (⟨[names.schema "EventType"],
          (decl.events.zipIdx 1).map fun x => Owner.branch [names.schema "EventType"] x.2 x.1⟩ ::
        decl.events.flatMap fun event =>
          Owner.plain [names.schema "EventType"] (Case.upperCamel event.name) event.properties)
      [.oneof node] := by
  obtain ⟨parts, hparts, h⟩ := bind_eq_ok h
  obtain ⟨⟨props, hoisted⟩, hprops, h⟩ := bind_eq_ok h
  cases h
  obtain ⟨hevents, hbranches⟩ := branches_built hparts
  rw [hbranches] at hprops
  have hhoisted := properties_built _ hprops
  rw [ownersList_branch] at hhoisted
  have hnested := hevents.append hhoisted
  rw [List.append_nil] at hnested
  exact .oneof rfl hprops (List.subset_append_right _ _) hnested

theorem queryMethod_built {span : Span} {name path : String} {kind : QueryKind}
    {request response : List PropertyDecl} {node : MethodNode}
    (h : queryMethod file span name path kind request response = .ok node) :
    Owner.AllBuilt (Owner.plain [] (name ++ "Request") request ++
      Owner.plain [] (name ++ "Response") response) [.object node.request, .object node.response] := by
  obtain ⟨built, hrequest, h⟩ := bind_eq_ok h
  obtain ⟨built', hresponse, h⟩ := bind_eq_ok h
  cases h
  exact (payload_built hrequest).append (payload_built hresponse)

theorem queryService_built {node : ServiceNode} (h : queryService file decl names = .ok node) :
    Owner.AllBuilt (Owner.ofEntityQuery decl names) (node.objects.map SchemaNode.object) := by
  obtain ⟨get, hget, h⟩ := bind_eq_ok h
  obtain ⟨list, hlist, h⟩ := bind_eq_ok h
  obtain ⟨events, hevents, h⟩ := bind_eq_ok h
  cases h
  exact (queryMethod_built hget).append
    ((queryMethod_built hlist).append (queryMethod_built hevents))

theorem commandService_built {group : CommandGroup} {node : ServiceNode}
    (h : commandService file decl names group = .ok node) :
    Owner.AllBuilt (group.methods.flatMap Owner.ofMethod) (node.objects.map SchemaNode.object) := by
  obtain ⟨methods, hmethods, h⟩ := bind_eq_ok h
  cases h
  rw [ServiceNode.objects_map]
  exact Owner.allBuilt_mapM hmethods fun _ _ => method_built

theorem messageTopic_built {span : Span} {topic name : String} {description : Option String}
    {shape : TopicShape} {properties : List PropertyDecl} {node : TopicNode}
    (h : messageTopic file span topic name description shape properties = .ok node) :
    Owner.AllBuilt (Owner.plain [] (name ++ "Message") properties)
      (node.objects.map SchemaNode.object) := by
  obtain ⟨message, hmessage, h⟩ := bind_eq_ok h
  cases h
  exact payload_built hmessage

end Entity

/-- What an element is built into, in each of the three files. -/
structure Element.BuiltInto (element : Element) (nodes : List RootNode) : Prop where
  schemas : Owner.AllBuilt element.mainOwners (RootNode.schemas nodes)
  services : Owner.AllBuilt element.serviceOwners (RootNode.serviceSchemas nodes)
  topics : Owner.AllBuilt element.topicOwners (RootNode.topicSchemas nodes)

namespace Entity

open Build

theorem expand_built {file : String} {decl : EntityDecl} {nodes : List RootNode}
    (h : expand file decl = .ok nodes) : (Element.entity decl).BuiltInto nodes := by
  obtain ⟨e, rfl, hfilters⟩ := exists_expansion_filters h
  have hstate := state_built e.state_eq
  rw [defaultFilters_ok hfilters] at hstate
  constructor
  · simp only [Expansion.roots, RootNode.schemas_append, RootNode.schemas_map_schema,
      RootNode.schemas_map_service, RootNode.schemas_map_topic, List.append_nil]
    exact (keys_built e.keys_eq).append ((data_built e.data_eq).append
      ((Owner.AllBuilt.enum e.status).append (hstate.append
        ((eventType_built e.eventType_eq).append ((event_built e.event_eq).append
          (declarations_built _ e.schemas_eq))))))
  · simp only [Expansion.roots, RootNode.serviceSchemas_append, RootNode.serviceSchemas_map_schema,
      RootNode.serviceSchemas_map_service, RootNode.serviceSchemas_map_topic, List.append_nil]
    show Owner.AllBuilt _ ((e.query.objects.map SchemaNode.object ++ []) ++
      e.commands.flatMap (fun node => node.objects.map SchemaNode.object) ++ [])
    rw [List.append_nil, List.append_nil]
    exact (queryService_built e.query_eq).append
      (Owner.allBuilt_mapM e.commands_eq fun _ _ => commandService_built)
  · simp only [Expansion.roots, RootNode.topicSchemas_append, RootNode.topicSchemas_map_schema,
      RootNode.topicSchemas_map_service, RootNode.topicSchemas_map_topic, List.append_nil]
    show Owner.AllBuilt _ ((e.publish.objects.map SchemaNode.object ++ []) ++
      e.summaries.flatMap fun node => node.objects.map SchemaNode.object)
    rw [List.append_nil]
    exact (messageTopic_built e.publish_eq).append
      (Owner.allBuilt_mapM e.summaries_eq fun _ _ h => messageTopic_built h)

end Entity

/-! ## Documents -/

theorem Element.nodes_built {file : String} {element : Element} {nodes : List RootNode}
    (h : element.nodes file = .ok nodes) : element.BuiltInto nodes := by
  cases element with
  | entity decl => exact Entity.expand_built h
  | object decl =>
      obtain ⟨node, hnode, h⟩ := bind_eq_ok h
      cases h
      exact ⟨Build.object_built decl hnode, List.Forall₂.nil, List.Forall₂.nil⟩
  | oneof decl =>
      obtain ⟨node, hnode, h⟩ := bind_eq_ok h
      cases h
      exact ⟨Build.oneof_built decl hnode, List.Forall₂.nil, List.Forall₂.nil⟩
  | enum decl =>
      obtain ⟨node, hnode, h⟩ := bind_eq_ok h
      cases h
      exact ⟨.enum node, List.Forall₂.nil, List.Forall₂.nil⟩
  | polymorph decl =>
      obtain ⟨node, hnode, h⟩ := bind_eq_ok h
      cases h
      exact ⟨.polymorph (Build.polymorph_childNest hnode), List.Forall₂.nil, List.Forall₂.nil⟩
  | service decl =>
      obtain ⟨node, hnode, h⟩ := bind_eq_ok h
      cases h
      refine ⟨List.Forall₂.nil, ?_, List.Forall₂.nil⟩
      have hobjects : RootNode.serviceSchemas [.service node] = node.objects.map .object :=
        List.append_nil _
      rw [hobjects]
      exact Build.service_built hnode
  | topic decl =>
      obtain ⟨node, hnode, h⟩ := bind_eq_ok h
      cases h
      refine ⟨List.Forall₂.nil, List.Forall₂.nil, ?_⟩
      have hobjects : RootNode.topicSchemas [.topic node] = node.objects.map .object :=
        List.append_nil _
      rw [hobjects]
      exact Build.topic_built hnode

theorem forall₂_compose {α β γ : Type} {R : α → β → Prop} {S : β → γ → Prop} {T : α → γ → Prop}
    (h : ∀ a b c, R a b → S b c → T a c) {as : List α} {bs : List β} {cs : List γ}
    (hR : List.Forall₂ R as bs) (hS : List.Forall₂ S bs cs) : List.Forall₂ T as cs := by
  induction hR generalizing cs with
  | nil =>
      cases hS
      exact .nil
  | cons hab _ ih =>
      cases hS with
      | cons hbc hS => exact .cons (h _ _ _ hab hbc) (ih hS)

/-- An owner that tells as much as another, or nothing of the properties. -/
def Owner.Abridges (o full : Owner) : Prop :=
  o.path = full.path ∧ (o.properties = full.properties ∨ o.properties = [])

theorem Owner.abridges_refl (os : List Owner) : List.Forall₂ Abridges os os :=
  List.forall₂_same.mpr fun _ _ => ⟨rfl, .inl rfl⟩

theorem Owner.BuiltInto.becomes_of_abridges {o full : Owner} {h : Holder}
    (hbuilt : full.BuiltInto h) (ho : o.Abridges full) : o.Becomes h := by
  obtain ⟨hpath, hproperties⟩ := hbuilt.becomes
  obtain ⟨heq, hsame | hnone⟩ := ho
  · exact ⟨hpath.trans heq.symm, by rw [heq, hsame]; exact hproperties⟩
  · exact ⟨hpath.trans heq.symm, by rw [hnone]; trivial⟩

/-- Of state and event type the properties are left out. -/
theorem Element.schemaOwners_abridge (element : Element) :
    List.Forall₂ Owner.Abridges element.schemaOwners element.mainOwners := by
  cases element with
  | entity decl =>
      refine List.rel_append (Owner.abridges_refl _) (List.rel_append (Owner.abridges_refl _)
        (List.rel_append (.cons ⟨rfl, .inr rfl⟩ .nil) (List.rel_append ?_ (Owner.abridges_refl _))))
      exact .cons ⟨rfl, .inr rfl⟩ (Owner.abridges_refl _)
  | _ => exact Owner.abridges_refl _

namespace Document

def schemaOwners (d : Document) : List Owner := d.elements.flatMap Element.schemaOwners
def mainOwners (d : Document) : List Owner := d.elements.flatMap Element.mainOwners
def serviceOwners (d : Document) : List Owner := d.elements.flatMap Element.serviceOwners
def topicOwners (d : Document) : List Owner := d.elements.flatMap Element.topicOwners

/-- What a document without malformed elements is built into. -/
theorem owners_built {d : Document} (h : ∀ outcome ∈ d.outcomes, ∃ nodes, outcome = .ok nodes) :
    Owner.AllBuilt d.mainOwners (RootNode.schemas d.nodes) ∧
      Owner.AllBuilt d.serviceOwners (RootNode.serviceSchemas d.nodes) ∧
      Owner.AllBuilt d.topicOwners (RootNode.topicSchemas d.nodes) := by
  obtain ⟨path, package, imports, elements⟩ := d
  induction elements with
  | nil => exact ⟨List.Forall₂.nil, List.Forall₂.nil, List.Forall₂.nil⟩
  | cons element rest ih =>
      obtain ⟨nodes, hnodes⟩ := h _ List.mem_cons_self
      obtain ⟨hschemas, hservices, htopics⟩ := ih fun outcome ho => h outcome (List.mem_cons_of_mem _ ho)
      have helement := Element.nodes_built hnodes
      have heq : Document.nodes ⟨path, package, imports, element :: rest⟩ =
          nodes ++ Document.nodes ⟨path, package, imports, rest⟩ := by
        rw [Document.nodes, outcomes, List.map_cons, hnodes, List.flatMap_cons]
        rfl
      rw [heq, RootNode.schemas_append, RootNode.serviceSchemas_append, RootNode.topicSchemas_append]
      exact ⟨helement.schemas.append hschemas, helement.services.append hservices,
        helement.topics.append htopics⟩

theorem schemaOwners_abridge (d : Document) :
    List.Forall₂ Owner.Abridges d.schemaOwners d.mainOwners := by
  rw [schemaOwners, mainOwners]
  induction d.elements with
  | nil => exact .nil
  | cons element rest ih => exact List.rel_append element.schemaOwners_abridge ih

/-- What a document without malformed elements becomes. -/
theorem owners_become {d : Document} (h : ∀ outcome ∈ d.outcomes, ∃ nodes, outcome = .ok nodes) :
    Owner.AllBecome d.schemaOwners (RootNode.schemas d.nodes) ∧
      Owner.AllBecome d.serviceOwners (RootNode.serviceSchemas d.nodes) ∧
      Owner.AllBecome d.topicOwners (RootNode.topicSchemas d.nodes) := by
  obtain ⟨hschemas, hservices, htopics⟩ := owners_built h
  refine ⟨?_, hservices.imp fun _ _ => Owner.BuiltInto.becomes,
    htopics.imp fun _ _ => Owner.BuiltInto.becomes⟩
  exact forall₂_compose (fun _ _ _ ho hbuilt => hbuilt.becomes_of_abridges ho) d.schemaOwners_abridge
    hschemas

end Document
end Schematic
