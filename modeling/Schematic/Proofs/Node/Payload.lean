import Schematic.Proofs.Node.Nesting
import Mathlib.Data.List.Forall2

/-!
# Payloads

Requests and responses of methods and messages of topics are objects that no schema declares.  An
element tells their names and their properties, and an entity tells of some that it writes itself.
They are built in that order, and the name of each ends in what it is for.
-/

namespace Schematic

/-- The name of a payload and the properties it is built from. -/
structure Payload where
  name : String
  properties : List PropertyDecl

namespace Payload

def ofMethod (decl : MethodDecl) : List Payload :=
  [⟨decl.name ++ "Request", decl.request⟩, ⟨decl.name ++ "Response", decl.response⟩]

def ofTopicMessage (decl : TopicMessageDecl) : Payload :=
  ⟨decl.name ++ "Message", decl.properties⟩

open Entity in
/-- Requests and responses of the queries of an entity. -/
def ofQuery (decl : EntityDecl) (names : Names) : List Payload :=
  [⟨names.schema "Get" ++ "Request", primaryKeys decl⟩,
    ⟨names.schema "Get" ++ "Response", getResponse decl names⟩,
    ⟨names.schema "List" ++ "Request", shardKeys decl ++ pageAndQuery⟩,
    ⟨names.schema "List" ++ "Response", listResponse names⟩,
    ⟨names.schema "Events" ++ "Request", primaryKeys decl ++ pageAndQuery⟩,
    ⟨names.schema "Events" ++ "Response", eventsResponse names⟩]

open Entity in
/-- The payloads of an entity: of its queries, of its commands, and of its topics. -/
def ofEntity (decl : EntityDecl) (names : Names) : List Payload :=
  ofQuery decl names ++ (decl.commands.flatMap fun group => group.methods.flatMap ofMethod) ++
    (⟨names.schema "Event" ++ "Message", publishProperties names⟩ ::
      decl.summaries.map fun summary => ⟨summary.name ++ "Message", summaryProperties names summary⟩)

/-- An object is built from a payload. -/
def Builds (file : String) (p : Payload) (object : ObjectNode) : Prop :=
  ∃ span, Build.payload file p.name span p.properties = .ok object

end Payload

def Element.payloads : Element → List Payload
  | .service decl => decl.methods.flatMap Payload.ofMethod
  | .topic decl => (Build.topicParts decl.kind).2.map Payload.ofTopicMessage
  | .entity decl => Payload.ofEntity decl (.ofDecl decl.name)
  | _ => []

/-- The requests and responses of a service, or the messages of a topic. -/
def RootNode.payloads : RootNode → List ObjectNode
  | .schema _ => []
  | .service node => node.objects
  | .topic node => node.objects

/-! ## Building payloads -/

theorem forall₂_flatMap_of_mapM {α β γ δ ε : Type} {f : α → Except ε β} {R : γ → δ → Prop}
    {as : α → List γ} {bs : β → List δ} (hf : ∀ a b, f a = .ok b → List.Forall₂ R (as a) (bs b)) :
    ∀ {l : List α} {l' : List β}, l.mapM f = .ok l' → List.Forall₂ R (l.flatMap as) (l'.flatMap bs) := by
  intro l
  induction l with
  | nil =>
      intro l' h
      cases h
      exact .nil
  | cons a rest ih =>
      intro l' h
      rw [List.mapM_cons] at h
      obtain ⟨b, ha, h⟩ := bind_eq_ok h
      obtain ⟨others, hrest, h⟩ := bind_eq_ok h
      cases h
      exact List.rel_append (hf a b ha) (ih hrest)

namespace Build

variable {file : String}

theorem method_payloads {decl : MethodDecl} {node : MethodNode} (h : method file decl = .ok node) :
    List.Forall₂ (Payload.Builds file) (Payload.ofMethod decl) [node.request, node.response] := by
  obtain ⟨_, -, h⟩ := bind_eq_ok h
  obtain ⟨request, hrequest, h⟩ := bind_eq_ok h
  obtain ⟨response, hresponse, h⟩ := bind_eq_ok h
  cases h
  exact .cons ⟨_, hrequest⟩ (.cons ⟨_, hresponse⟩ .nil)

theorem service_payloads {decl : ServiceDecl} {node : ServiceNode} (h : service file decl = .ok node) :
    List.Forall₂ (Payload.Builds file) (decl.methods.flatMap Payload.ofMethod) node.objects := by
  unfold service at h
  split at h
  · cases h
  · obtain ⟨methods, hmethods, h⟩ := bind_eq_ok h
    cases h
    exact forall₂_flatMap_of_mapM (fun _ _ => method_payloads) hmethods

theorem topicMessage_payload {decl : TopicMessageDecl} {node : TopicMessageNode}
    (h : topicMessage file decl = .ok node) :
    List.Forall₂ (Payload.Builds file) [Payload.ofTopicMessage decl] [node.message] := by
  obtain ⟨_, -, h⟩ := bind_eq_ok h
  obtain ⟨message, hmessage, h⟩ := bind_eq_ok h
  cases h
  exact .cons ⟨_, hmessage⟩ .nil

theorem topic_payloads {decl : TopicDecl} {node : TopicNode} (h : topic file decl = .ok node) :
    List.Forall₂ (Payload.Builds file) ((topicParts decl.kind).2.map Payload.ofTopicMessage)
      node.objects := by
  obtain ⟨_, -, h⟩ := bind_eq_ok h
  dsimp only at h
  split at h
  · cases h
  · obtain ⟨messages, hmessages, h⟩ := bind_eq_ok h
    cases h
    rw [TopicNode.objects, List.map_eq_flatMap, List.map_eq_flatMap]
    exact forall₂_flatMap_of_mapM (fun _ _ => topicMessage_payload) hmessages

end Build

namespace Entity

variable {file : String} {decl : EntityDecl} {names : Names}

theorem queryMethod_payloads {span : Span} {name path : String} {kind : QueryKind}
    {request response : List PropertyDecl} {node : MethodNode}
    (h : queryMethod file span name path kind request response = .ok node) :
    List.Forall₂ (Payload.Builds file) [⟨name ++ "Request", request⟩, ⟨name ++ "Response", response⟩]
      [node.request, node.response] := by
  obtain ⟨built, hrequest, h⟩ := bind_eq_ok h
  obtain ⟨built', hresponse, h⟩ := bind_eq_ok h
  cases h
  exact .cons ⟨_, hrequest⟩ (.cons ⟨_, hresponse⟩ .nil)

theorem queryService_payloads {node : ServiceNode} (h : queryService file decl names = .ok node) :
    List.Forall₂ (Payload.Builds file) (Payload.ofQuery decl names) node.objects := by
  obtain ⟨get, hget, h⟩ := bind_eq_ok h
  obtain ⟨list, hlist, h⟩ := bind_eq_ok h
  obtain ⟨events, hevents, h⟩ := bind_eq_ok h
  cases h
  exact List.rel_append (queryMethod_payloads hget)
    (List.rel_append (queryMethod_payloads hlist) (queryMethod_payloads hevents))

theorem commandService_payloads {group : CommandGroup} {node : ServiceNode}
    (h : commandService file decl names group = .ok node) :
    List.Forall₂ (Payload.Builds file) (group.methods.flatMap Payload.ofMethod) node.objects := by
  obtain ⟨methods, hmethods, h⟩ := bind_eq_ok h
  cases h
  exact forall₂_flatMap_of_mapM (fun _ _ => Build.method_payloads) hmethods

theorem messageTopic_payloads {span : Span} {topic name : String} {description : Option String}
    {shape : TopicShape} {properties : List PropertyDecl} {node : TopicNode}
    (h : messageTopic file span topic name description shape properties = .ok node) :
    List.Forall₂ (Payload.Builds file) [⟨name ++ "Message", properties⟩] node.objects := by
  obtain ⟨message, hmessage, h⟩ := bind_eq_ok h
  cases h
  exact .cons ⟨_, hmessage⟩ .nil

theorem expand_payloads {nodes : List RootNode} (h : expand file decl = .ok nodes) :
    List.Forall₂ (Payload.Builds file) (Payload.ofEntity decl (.ofDecl decl.name))
      (nodes.flatMap RootNode.payloads) := by
  obtain ⟨e, rfl⟩ := exists_expansion h
  have hhead : [.schema (.object e.keys), .schema (.object e.data), .schema (.enum e.status),
      .schema (.object e.state), .schema (.oneof e.eventType), .schema (.object e.event),
      RootNode.service e.query].flatMap RootNode.payloads = e.query.objects := List.append_nil _
  have htopic : [RootNode.topic e.publish].flatMap RootNode.payloads = e.publish.objects :=
    List.append_nil _
  have hschemas : (e.schemas.map RootNode.schema).flatMap RootNode.payloads = [] := by
    simp [List.flatMap_map, RootNode.payloads]
  rw [Expansion.roots, List.flatMap_append, List.flatMap_append, List.flatMap_append,
    List.flatMap_append, hhead, htopic, hschemas, List.append_nil, List.flatMap_map, List.flatMap_map,
    List.append_assoc]
  refine List.rel_append (List.rel_append (queryService_payloads e.query_eq) ?_) ?_
  · exact forall₂_flatMap_of_mapM (fun _ _ => commandService_payloads) e.commands_eq
  · refine List.rel_append (messageTopic_payloads e.publish_eq) ?_
    rw [List.map_eq_flatMap]
    exact forall₂_flatMap_of_mapM (fun _ _ h => messageTopic_payloads h) e.summaries_eq

end Entity

theorem Element.nodes_payloads {file : String} {element : Element} {nodes : List RootNode}
    (h : element.nodes file = .ok nodes) :
    List.Forall₂ (Payload.Builds file) element.payloads (nodes.flatMap RootNode.payloads) := by
  cases element with
  | entity decl => exact Entity.expand_payloads h
  | service decl =>
      obtain ⟨node, hnode, h⟩ := bind_eq_ok h
      cases h
      have hobjects : [RootNode.service node].flatMap RootNode.payloads = node.objects :=
        List.append_nil _
      rw [hobjects]
      exact Build.service_payloads hnode
  | topic decl =>
      obtain ⟨node, hnode, h⟩ := bind_eq_ok h
      cases h
      have hobjects : [RootNode.topic node].flatMap RootNode.payloads = node.objects :=
        List.append_nil _
      rw [hobjects]
      exact Build.topic_payloads hnode
  | _ =>
      obtain ⟨node, -, h⟩ := bind_eq_ok h
      cases h
      exact .nil

/-- Whatever node a document has, one of its elements became it. -/
theorem Document.exists_element {d : Document} {node : RootNode} (h : node ∈ d.nodes) :
    ∃ element ∈ d.elements, ∃ nodes, element.nodes d.path = .ok nodes ∧ node ∈ nodes := by
  obtain ⟨outcome, houtcome, hnode⟩ := List.mem_flatMap.mp h
  obtain ⟨element, helement, rfl⟩ := List.mem_map.mp houtcome
  split at hnode
  · rename_i nodes hnodes
    exact ⟨element, helement, nodes, hnodes, hnode⟩
  · cases hnode

/-! ## Names of payloads -/

namespace Payload

/-- A name ends in what the payload is for. -/
def Labelled (name : String) : Prop :=
  ∃ ending ∈ ["Request", "Response", "Message"], ending.toList <:+ name.toList

theorem labelled_append (stem : String) {ending : String}
    (h : ending ∈ ["Request", "Response", "Message"]) : Labelled (stem ++ ending) :=
  ⟨ending, h, by rw [String.toList_append]; exact List.suffix_append _ _⟩

theorem labelled_ofMethod {decl : MethodDecl} : ∀ p ∈ ofMethod decl, Labelled p.name := by
  rw [ofMethod, List.forall_mem_cons, List.forall_mem_singleton]
  exact ⟨labelled_append _ (by decide), labelled_append _ (by decide)⟩

theorem labelled_ofQuery (decl : EntityDecl) (names : Entity.Names) :
    ∀ p ∈ ofQuery decl names, Labelled p.name := by
  intro p hp
  simp only [ofQuery, List.mem_cons, List.not_mem_nil, or_false] at hp
  rcases hp with rfl | rfl | rfl | rfl | rfl | rfl <;> exact labelled_append _ (by decide)

end Payload

theorem Element.labelled_payloads {element : Element} :
    ∀ p ∈ element.payloads, Payload.Labelled p.name := by
  have hmethods : ∀ decls : List MethodDecl, ∀ p ∈ decls.flatMap Payload.ofMethod,
      Payload.Labelled p.name := by
    intro decls p hp
    obtain ⟨decl, -, hp⟩ := List.mem_flatMap.mp hp
    exact Payload.labelled_ofMethod p hp
  cases element with
  | service decl => exact hmethods decl.methods
  | topic decl =>
      rw [payloads, List.forall_mem_map]
      exact fun message _ => Payload.labelled_append _ (by decide)
  | entity decl =>
      rw [payloads, Payload.ofEntity, List.forall_mem_append, List.forall_mem_append,
        List.forall_mem_cons, List.forall_mem_map]
      refine ⟨⟨Payload.labelled_ofQuery decl _, fun p hp => ?_⟩,
        Payload.labelled_append _ (by decide), fun summary _ => Payload.labelled_append _ (by decide)⟩
      obtain ⟨group, -, hp⟩ := List.mem_flatMap.mp hp
      exact hmethods group.methods p hp
  | _ => exact fun p hp => absurd hp List.not_mem_nil

theorem Build.name_of_payload {file name : String} {span : Span} {props : List PropertyDecl}
    {node : ObjectNode} (h : payload file name span props = .ok node) : node.head.name = name := by
  obtain ⟨⟨nodes, hoisted⟩, -, h⟩ := bind_eq_ok h
  cases h
  rfl

end Schematic
