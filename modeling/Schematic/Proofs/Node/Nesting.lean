import Schematic.Proofs.Node.Expansion

/-!
# Where schemas stand

Every schema knows the schemas around it.  Whether it was declared at the top of a document,
inside another schema, in place of a property or as a part of an entity, what it knows is where it
stands.  A topic has at least one message.
-/

namespace Schematic

/-! ## Standing in a nest -/

mutual

/-- The object stands in `nest`, and what is nested in it stands in it. -/
def ObjectNode.StandsIn (nest : List String) : ObjectNode → Prop
  | { head, nested, .. } => head.nest = nest ∧ SchemaNode.AllStandIn head.childNest nested

def OneofNode.StandsIn (nest : List String) : OneofNode → Prop
  | { head, nested, .. } => head.nest = nest ∧ SchemaNode.AllStandIn head.childNest nested

def SchemaNode.StandsIn (nest : List String) : SchemaNode → Prop
  | .object node => node.StandsIn nest
  | .oneof node => node.StandsIn nest
  | .enum node => node.head.nest = nest
  | .polymorph node => node.head.nest = nest

def SchemaNode.AllStandIn (nest : List String) : List SchemaNode → Prop
  | [] => True
  | node :: rest => node.StandsIn nest ∧ SchemaNode.AllStandIn nest rest

end

/-- Schemas and payloads stand at the top of their packages, and topics have messages. -/
def RootNode.Stands : RootNode → Prop
  | .schema node => node.StandsIn []
  | .service node => ∀ object ∈ node.objects, object.StandsIn []
  | .topic node => node.messages ≠ [] ∧ ∀ object ∈ node.objects, object.StandsIn []

theorem SchemaNode.allStandIn_iff {nest : List String} {nodes : List SchemaNode} :
    AllStandIn nest nodes ↔ ∀ node ∈ nodes, node.StandsIn nest := by
  induction nodes with
  | nil => simp [AllStandIn]
  | cons node rest ih => rw [AllStandIn, ih, List.forall_mem_cons]

theorem SchemaNode.allStandIn_append {nest : List String} {a b : List SchemaNode} :
    AllStandIn nest (a ++ b) ↔ AllStandIn nest a ∧ AllStandIn nest b := by
  rw [allStandIn_iff, allStandIn_iff, allStandIn_iff, List.forall_mem_append]

theorem SchemaNode.allStandIn_singleton {nest : List String} {node : SchemaNode} :
    AllStandIn nest [node] ↔ node.StandsIn nest := by
  rw [AllStandIn, AllStandIn, and_true]

/-- Neither description nor part of an entity matters to where an object stands. -/
theorem ObjectNode.StandsIn.of_same {nest : List String} {node node' : ObjectNode}
    (h : node.StandsIn nest) (hnest : node'.head.nest = node.head.nest)
    (hname : node'.head.name = node.head.name) (hnested : node'.nested = node.nested) :
    node'.StandsIn nest := by
  obtain ⟨head, properties, nested, entity, polymorphMember⟩ := node
  obtain ⟨head', properties', nested', entity', polymorphMember'⟩ := node'
  obtain ⟨hstands, hall⟩ := h
  have hchild : head'.childNest = head.childNest := by
    rw [Head.childNest, Head.childNest]
    exact congrArg₂ (fun a b => a ++ [b]) hnest hname
  have hnested : nested' = nested := hnested
  refine ⟨hnest.trans hstands, ?_⟩
  rw [hchild, hnested]
  exact hall

/-! ## Declarations -/

namespace Build

open SchemaNode

variable {file : String} {nest : List String}

theorem enum_standsIn {decl : EnumDecl} {node : EnumNode} (h : enum file nest decl = .ok node) :
    node.head.nest = nest := by
  obtain ⟨_, -, h⟩ := bind_eq_ok h
  obtain ⟨_, -, h⟩ := bind_eq_ok h
  cases h
  rfl

theorem polymorph_standsIn {decl : PolymorphDecl} {node : PolymorphNode}
    (h : polymorph file nest decl = .ok node) : node.head.nest = nest := by
  obtain ⟨_, -, h⟩ := bind_eq_ok h
  cases h
  rfl

mutual

/-- What is declared in place of a property stands in the schema that has the property. -/
theorem field_standsIn {owner : Head} {property : String} : (schema : FieldSchema) →
    ∀ {kind hoisted}, field file owner property schema = .ok (kind, hoisted) →
      AllStandIn owner.childNest hoisted
  | .string _, _, _, h => by cases h; trivial
  | .integer _, _, _, h => by cases h; trivial
  | .float _, _, _, h => by cases h; trivial
  | .decimal _, _, _, h => by cases h; trivial
  | .date _, _, _, h => by cases h; trivial
  | .timestamp _, _, _, h => by cases h; trivial
  | .bool _, _, _, h => by cases h; trivial
  | .bytes _, _, _, h => by cases h; trivial
  | .key _, _, _, h => by cases h; trivial
  | .any _, _, _, h => by cases h; trivial
  | .enum (.named _) _ _, _, _, h => by cases h; trivial
  | .object (.named _) _, _, _, h => by cases h; trivial
  | .oneof (.named _), _, _, h => by cases h; trivial
  | .polymorph (.named _), _, _, h => by cases h; trivial
  | .enum (.inline decl) _ _, _, _, h => by
      rw [field] at h
      obtain ⟨node, hnode, h⟩ := bind_eq_ok h
      cases h
      exact allStandIn_singleton.mpr (enum_standsIn hnode)
  | .object (.inline decl) _, _, _, h => by
      rw [field] at h
      obtain ⟨node, hnode, h⟩ := bind_eq_ok h
      cases h
      exact allStandIn_singleton.mpr (object_standsIn decl hnode)
  | .oneof (.inline decl), _, _, h => by
      rw [field] at h
      obtain ⟨node, hnode, h⟩ := bind_eq_ok h
      cases h
      exact allStandIn_singleton.mpr (oneof_standsIn decl hnode)
  | .polymorph (.inline decl), _, _, h => by
      rw [field] at h
      obtain ⟨node, hnode, h⟩ := bind_eq_ok h
      cases h
      exact allStandIn_singleton.mpr (polymorph_standsIn hnode)
  | .array items _ _, _, _, h => by
      rw [field] at h
      obtain ⟨⟨item, hoisted⟩, hitem, h⟩ := bind_eq_ok h
      cases h
      exact field_standsIn items hitem
  | .map items _, _, _, h => by
      rw [field] at h
      obtain ⟨⟨item, hoisted⟩, hitem, h⟩ := bind_eq_ok h
      cases h
      exact field_standsIn items hitem

theorem property_standsIn {owner : Head} {names : List String} {numbers : List Int} {place : Nat} :
    (decl : PropertyDecl) → ∀ {node hoisted},
      property file owner names numbers place decl = .ok (node, hoisted) →
        AllStandIn owner.childNest hoisted
  | { name, description, required, optional, entityKey, number, schema, span }, _, _, h => by
      rw [property] at h
      obtain ⟨n, -, h⟩ := bind_eq_ok h
      obtain ⟨⟨kind, hoisted⟩, hkind, h⟩ := bind_eq_ok h
      cases h
      exact field_standsIn schema hkind

theorem properties_standsIn {owner : Head} {names : List String} {numbers : List Int}
    {place : Nat} : (decls : List PropertyDecl) → ∀ {nodes hoisted},
      properties file owner names numbers place decls = .ok (nodes, hoisted) →
        AllStandIn owner.childNest hoisted
  | [], _, _, h => by cases h; trivial
  | decl :: rest, _, _, h => by
      rw [properties] at h
      obtain ⟨⟨node, hoisted⟩, hnode, h⟩ := bind_eq_ok h
      obtain ⟨⟨nodes, others⟩, hrest, h⟩ := bind_eq_ok h
      cases h
      exact allStandIn_append.mpr ⟨property_standsIn decl hnode, properties_standsIn rest hrest⟩

theorem object_standsIn {nest : List String} {name : String} : (decl : ObjectDecl) →
    ∀ {node}, object file nest name decl = .ok node → node.StandsIn nest
  | { name := _, description, properties := props, schemas, polymorphMember, span }, _, h => by
      rw [object] at h
      obtain ⟨_, -, h⟩ := bind_eq_ok h
      obtain ⟨declared, hdeclared, h⟩ := bind_eq_ok h
      obtain ⟨⟨nodes, hoisted⟩, hprops, h⟩ := bind_eq_ok h
      cases h
      exact ⟨rfl, allStandIn_append.mpr
        ⟨declarations_standsIn schemas hdeclared, properties_standsIn props hprops⟩⟩

theorem oneof_standsIn {nest : List String} {name : String} : (decl : OneofDecl) →
    ∀ {node}, oneof file nest name decl = .ok node → node.StandsIn nest
  | { name := _, description, properties := props, schemas, span }, _, h => by
      rw [oneof] at h
      obtain ⟨_, -, h⟩ := bind_eq_ok h
      obtain ⟨declared, hdeclared, h⟩ := bind_eq_ok h
      obtain ⟨⟨nodes, hoisted⟩, hprops, h⟩ := bind_eq_ok h
      obtain ⟨_, -, h⟩ := bind_eq_ok h
      cases h
      exact ⟨rfl, allStandIn_append.mpr
        ⟨declarations_standsIn schemas hdeclared, properties_standsIn props hprops⟩⟩

theorem declaration_standsIn {nest : List String} : (decl : Declaration) →
    ∀ {node}, declaration file nest decl = .ok node → node.StandsIn nest
  | .object decl, _, h => by
      rw [declaration] at h
      obtain ⟨node, hnode, h⟩ := bind_eq_ok h
      cases h
      exact object_standsIn decl hnode
  | .oneof decl, _, h => by
      rw [declaration] at h
      obtain ⟨node, hnode, h⟩ := bind_eq_ok h
      cases h
      exact oneof_standsIn decl hnode
  | .enum decl, _, h => by
      rw [declaration] at h
      obtain ⟨node, hnode, h⟩ := bind_eq_ok h
      cases h
      exact enum_standsIn hnode
  | .polymorph decl, _, h => by
      rw [declaration] at h
      obtain ⟨node, hnode, h⟩ := bind_eq_ok h
      cases h
      exact polymorph_standsIn hnode

theorem declarations_standsIn {nest : List String} : (decls : List Declaration) →
    ∀ {nodes}, declarations file nest decls = .ok nodes → AllStandIn nest nodes
  | [], _, h => by cases h; trivial
  | decl :: rest, _, h => by
      rw [declarations] at h
      obtain ⟨node, hnode, h⟩ := bind_eq_ok h
      obtain ⟨nodes, hrest, h⟩ := bind_eq_ok h
      cases h
      exact ⟨declaration_standsIn decl hnode, declarations_standsIn rest hrest⟩

end

/-! ## Services and topics -/

theorem payload_standsIn {name : String} {span : Span} {props : List PropertyDecl}
    {node : ObjectNode} (h : payload file name span props = .ok node) : node.StandsIn [] := by
  obtain ⟨⟨nodes, hoisted⟩, hprops, h⟩ := bind_eq_ok h
  cases h
  exact ⟨rfl, properties_standsIn props hprops⟩

theorem method_standsIn {decl : MethodDecl} {node : MethodNode} (h : method file decl = .ok node) :
    node.request.StandsIn [] ∧ node.response.StandsIn [] := by
  obtain ⟨_, -, h⟩ := bind_eq_ok h
  obtain ⟨request, hrequest, h⟩ := bind_eq_ok h
  obtain ⟨response, hresponse, h⟩ := bind_eq_ok h
  cases h
  exact ⟨payload_standsIn hrequest, payload_standsIn hresponse⟩

/-- The objects of a service stand at the top if those of its methods do. -/
theorem objects_standIn {node : ServiceNode}
    (h : ∀ m ∈ node.methods, m.request.StandsIn [] ∧ m.response.StandsIn []) :
    ∀ object ∈ node.objects, object.StandsIn [] := by
  intro object hobject
  obtain ⟨m, hm, hobject⟩ := List.mem_flatMap.mp hobject
  obtain ⟨hrequest, hresponse⟩ := h m hm
  rcases List.mem_cons.mp hobject with rfl | hobject
  · exact hrequest
  · rw [List.mem_singleton.mp hobject]
    exact hresponse

theorem methods_standIn {decls : List MethodDecl} {nodes : List MethodNode}
    (h : decls.mapM (method file) = .ok nodes) :
    ∀ m ∈ nodes, m.request.StandsIn [] ∧ m.response.StandsIn [] := by
  intro m hm
  obtain ⟨decl, -, hdecl⟩ := exists_of_mem_mapM h hm
  exact method_standsIn hdecl

theorem service_stands {decl : ServiceDecl} {node : ServiceNode}
    (h : service file decl = .ok node) : (RootNode.service node).Stands := by
  unfold service at h
  split at h
  · cases h
  · obtain ⟨methods, hmethods, h⟩ := bind_eq_ok h
    cases h
    exact objects_standIn (methods_standIn hmethods)

theorem topicMessage_standsIn {decl : TopicMessageDecl} {node : TopicMessageNode}
    (h : topicMessage file decl = .ok node) : node.message.StandsIn [] := by
  obtain ⟨_, -, h⟩ := bind_eq_ok h
  obtain ⟨message, hmessage, h⟩ := bind_eq_ok h
  cases h
  exact payload_standsIn hmessage

theorem topic_stands {decl : TopicDecl} {node : TopicNode} (h : topic file decl = .ok node) :
    (RootNode.topic node).Stands := by
  obtain ⟨_, -, h⟩ := bind_eq_ok h
  dsimp only at h
  split at h
  · cases h
  · rename_i hnonempty
    obtain ⟨messages, hmessages, h⟩ := bind_eq_ok h
    cases h
    constructor
    · rintro rfl
      cases hdecls : (topicParts decl.kind).2 with
      | nil => exact hnonempty (by rw [hdecls]; rfl)
      | cons first rest =>
          rw [hdecls, List.mapM_cons] at hmessages
          obtain ⟨m, -, hmessages⟩ := bind_eq_ok hmessages
          obtain ⟨ms, -, hmessages⟩ := bind_eq_ok hmessages
          cases hmessages
    · intro object hobject
      obtain ⟨m, hm, rfl⟩ := List.mem_map.mp hobject
      obtain ⟨d, -, hd⟩ := exists_of_mem_mapM hmessages hm
      exact topicMessage_standsIn hd

end Build

/-! ## Entities -/

namespace Entity

open Build SchemaNode

variable {file : String} {decl : EntityDecl} {names : Names}

theorem declaredPart_standsIn {ending : String} {part : EntityPart} {properties : List PropertyDecl}
    {node : ObjectNode} (h : declaredPart file decl names ending part properties = .ok node) :
    node.StandsIn [] := by
  obtain ⟨built, hbuilt, h⟩ := bind_eq_ok h
  cases h
  exact (object_standsIn _ hbuilt).of_same rfl rfl rfl

theorem status_standsIn {node : EnumNode} (h : status file decl names = .ok node) :
    node.head.nest = [] := by
  obtain ⟨built, hbuilt, h⟩ := bind_eq_ok h
  cases h
  have hnest := enum_standsIn hbuilt
  exact hnest

theorem generatedPart_standsIn {ending : String} {part : EntityPart} {description : Option String}
    {properties : List PropertyDecl} {node : ObjectNode}
    (h : generatedPart file decl names ending part description properties = .ok node) :
    node.StandsIn [] := by
  obtain ⟨built, hbuilt, h⟩ := bind_eq_ok h
  cases h
  exact (payload_standsIn hbuilt).of_same rfl rfl rfl

theorem branches_standIn {nest : List String} {place : Nat} {events : List EventDecl}
    {parts : List (ObjectNode × PropertyDecl)} (h : branches file nest place events = .ok parts) :
    ∀ part ∈ parts, part.1.StandsIn nest := by
  induction events generalizing place parts with
  | nil =>
      cases h
      exact fun _ h => absurd h List.not_mem_nil
  | cons event rest ih =>
      rw [branches] at h
      obtain ⟨node, hnode, h⟩ := bind_eq_ok h
      obtain ⟨others, hothers, h⟩ := bind_eq_ok h
      cases h
      exact List.forall_mem_cons.mpr ⟨object_standsIn _ hnode, ih hothers⟩

theorem eventType_standsIn {node : OneofNode} (h : eventType file decl names = .ok node) :
    node.StandsIn [] := by
  obtain ⟨parts, hparts, h⟩ := bind_eq_ok h
  obtain ⟨⟨props, hoisted⟩, hprops, h⟩ := bind_eq_ok h
  cases h
  refine ⟨rfl, allStandIn_append.mpr ⟨allStandIn_iff.mpr fun node hnode => ?_, ?_⟩⟩
  · obtain ⟨part, hpart, rfl⟩ := List.mem_map.mp hnode
    exact branches_standIn hparts part hpart
  · exact properties_standsIn _ hprops

theorem queryMethod_standsIn {span : Span} {name path : String} {kind : QueryKind}
    {request response : List PropertyDecl} {node : MethodNode}
    (h : queryMethod file span name path kind request response = .ok node) :
    node.request.StandsIn [] ∧ node.response.StandsIn [] := by
  obtain ⟨built, hrequest, h⟩ := bind_eq_ok h
  obtain ⟨built', hresponse, h⟩ := bind_eq_ok h
  cases h
  exact ⟨payload_standsIn hrequest, payload_standsIn hresponse⟩

theorem queryService_stands {node : ServiceNode} (h : queryService file decl names = .ok node) :
    (RootNode.service node).Stands := by
  obtain ⟨get, hget, h⟩ := bind_eq_ok h
  obtain ⟨list, hlist, h⟩ := bind_eq_ok h
  obtain ⟨events, hevents, h⟩ := bind_eq_ok h
  cases h
  refine objects_standIn fun m hm => ?_
  simp only [List.mem_cons, List.not_mem_nil, or_false] at hm
  rcases hm with rfl | rfl | rfl
  · exact queryMethod_standsIn hget
  · exact queryMethod_standsIn hlist
  · exact queryMethod_standsIn hevents

theorem commandService_stands {group : CommandGroup} {node : ServiceNode}
    (h : commandService file decl names group = .ok node) : (RootNode.service node).Stands := by
  obtain ⟨methods, hmethods, h⟩ := bind_eq_ok h
  cases h
  exact objects_standIn (methods_standIn hmethods)

theorem messageTopic_stands {span : Span} {topic name : String} {description : Option String}
    {shape : TopicShape} {properties : List PropertyDecl} {node : TopicNode}
    (h : messageTopic file span topic name description shape properties = .ok node) :
    (RootNode.topic node).Stands := by
  obtain ⟨message, hmessage, h⟩ := bind_eq_ok h
  cases h
  refine ⟨List.cons_ne_nil _ _, fun object hobject => ?_⟩
  rw [List.mem_singleton.mp hobject]
  exact payload_standsIn hmessage

theorem expand_stands {nodes : List RootNode} (h : expand file decl = .ok nodes) :
    ∀ node ∈ nodes, node.Stands := by
  obtain ⟨e, rfl⟩ := exists_expansion h
  refine Expansion.forall_roots.mpr ⟨⟨declaredPart_standsIn e.keys_eq,
    declaredPart_standsIn e.data_eq, status_standsIn e.status_eq, generatedPart_standsIn e.state_eq,
    eventType_standsIn e.eventType_eq, generatedPart_standsIn e.event_eq,
    allStandIn_iff.mp (declarations_standsIn _ e.schemas_eq)⟩,
    ⟨queryService_stands e.query_eq, fun node hnode => ?_⟩,
    ⟨messageTopic_stands e.publish_eq, fun node hnode => ?_⟩⟩
  · obtain ⟨group, -, hgroup⟩ := exists_of_mem_mapM e.commands_eq hnode
    exact commandService_stands hgroup
  · obtain ⟨summary, -, hsummary⟩ := exists_of_mem_mapM e.summaries_eq hnode
    exact messageTopic_stands hsummary

end Entity

/-! ## Documents -/

theorem Element.nodes_stand {file : String} {element : Element} {nodes : List RootNode}
    (h : element.nodes file = .ok nodes) : ∀ node ∈ nodes, node.Stands := by
  cases element with
  | entity decl => exact Entity.expand_stands h
  | object decl =>
      obtain ⟨node, hnode, h⟩ := bind_eq_ok h
      cases h
      exact List.forall_mem_singleton.mpr (Build.object_standsIn decl hnode)
  | oneof decl =>
      obtain ⟨node, hnode, h⟩ := bind_eq_ok h
      cases h
      exact List.forall_mem_singleton.mpr (Build.oneof_standsIn decl hnode)
  | enum decl =>
      obtain ⟨node, hnode, h⟩ := bind_eq_ok h
      cases h
      exact List.forall_mem_singleton.mpr (Build.enum_standsIn hnode)
  | polymorph decl =>
      obtain ⟨node, hnode, h⟩ := bind_eq_ok h
      cases h
      exact List.forall_mem_singleton.mpr (Build.polymorph_standsIn hnode)
  | service decl =>
      obtain ⟨node, hnode, h⟩ := bind_eq_ok h
      cases h
      exact List.forall_mem_singleton.mpr (Build.service_stands hnode)
  | topic decl =>
      obtain ⟨node, hnode, h⟩ := bind_eq_ok h
      cases h
      exact List.forall_mem_singleton.mpr (Build.topic_stands hnode)

/-- Every node of a document knows where it stands. -/
theorem Document.nodes_stand (d : Document) : ∀ node ∈ d.nodes, node.Stands := by
  intro node hnode
  obtain ⟨outcome, houtcome, hnode⟩ := List.mem_flatMap.mp hnode
  obtain ⟨element, -, rfl⟩ := List.mem_map.mp houtcome
  cases h : element.nodes d.path with
  | ok nodes =>
      rw [h] at hnode
      exact Element.nodes_stand h node hnode
  | error e =>
      rw [h] at hnode
      cases hnode

end Schematic
