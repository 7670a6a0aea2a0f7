import Schematic.Proofs.Conversion.Lookup
import Schematic.Proofs.Node.Payload

/-!
# Names that authors write

An author names schemas in properties, and polymorphs that objects belong to.  Schemas declared in
place, the parts of entities and some kinds of fields bring names that nobody wrote.  These have no
package, or they are well known.
-/

namespace Schematic

/-! ## What is written -/

mutual

def FieldSchema.written : FieldSchema → List RefName
  | .enum (.named name) _ _ => [name]
  | .object (.named name) _ => [name]
  | .object (.inline decl) _ => decl.written
  | .oneof (.named name) => [name]
  | .oneof (.inline decl) => decl.written
  | .polymorph (.named name) => [name]
  | .array items _ _ => items.written
  | .map items _ => items.written
  | _ => []

def PropertyDecl.written : PropertyDecl → List RefName
  | { schema, .. } => schema.written

def PropertyDecl.writtenList : List PropertyDecl → List RefName
  | [] => []
  | p :: rest => p.written ++ PropertyDecl.writtenList rest

def ObjectDecl.written : ObjectDecl → List RefName
  | { properties, schemas, polymorphMember, .. } =>
    polymorphMember.map Conversion.polymorphName ++ PropertyDecl.writtenList properties ++
      Declaration.writtenList schemas

def OneofDecl.written : OneofDecl → List RefName
  | { properties, schemas, .. } =>
    PropertyDecl.writtenList properties ++ Declaration.writtenList schemas

/-- The names that a declaration holds, here and further in. -/
def Declaration.written : Declaration → List RefName
  | .object decl => decl.written
  | .oneof decl => decl.written
  | .enum _ => []
  | .polymorph _ => []

def Declaration.writtenList : List Declaration → List RefName
  | [] => []
  | decl :: rest => decl.written ++ Declaration.writtenList rest

end

def MethodDecl.written (decl : MethodDecl) : List RefName :=
  PropertyDecl.writtenList decl.request ++ PropertyDecl.writtenList decl.response

def EntityDecl.written (decl : EntityDecl) : List RefName :=
  PropertyDecl.writtenList decl.keys ++ (PropertyDecl.writtenList decl.data ++
    ((decl.events.flatMap fun event => PropertyDecl.writtenList event.properties) ++
      ((decl.commands.flatMap fun group => group.methods.flatMap MethodDecl.written) ++
        ((decl.summaries.flatMap fun summary => PropertyDecl.writtenList summary.properties) ++
          Declaration.writtenList decl.schemas))))

def Element.written : Element → List RefName
  | .object decl => decl.written
  | .oneof decl => decl.written
  | .enum _ => []
  | .polymorph _ => []
  | .entity decl => decl.written
  | .service decl => decl.methods.flatMap MethodDecl.written
  | .topic decl => (Build.topicParts decl.kind).2.flatMap fun message =>
      PropertyDecl.writtenList message.properties

def Document.written (d : Document) : List RefName :=
  d.elements.flatMap Element.written

/-! ## Names that need no author -/

/-- Names without a package, names of well-known types, and names among those written. -/
def Authored (written names : List RefName) : Prop :=
  ∀ t ∈ names, t.package = none ∨ t ∈ WellKnown.names ∨ t ∈ written

namespace Authored

variable {written names names' : List RefName}

theorem nil : Authored written [] :=
  fun _ h => absurd h List.not_mem_nil

theorem append (h : Authored written names) (h' : Authored written names') :
    Authored written (names ++ names') :=
  List.forall_mem_append.mpr ⟨h, h'⟩

theorem of_subset (h : names ⊆ written) : Authored written names :=
  fun _ ht => Or.inr (Or.inr (h ht))

theorem mono {written' : List RefName} (h : Authored written names) (hsub : written ⊆ written') :
    Authored written' names :=
  fun t ht => (h t ht).imp_right fun h => h.imp_right fun h => hsub h

theorem flatMap {α : Type} {l : List α} {f : α → List RefName} (h : ∀ a ∈ l, Authored written (f a)) :
    Authored written (l.flatMap f) :=
  List.forall_mem_flatMap.mpr h

theorem plain (schema : String) : Authored written [{ schema }] := by
  intro t ht
  rw [List.mem_singleton.mp ht]
  exact Or.inl rfl

theorem wellKnown {t : RefName} (h : t ∈ WellKnown.names) : Authored written [t] := by
  intro t' ht
  rw [List.mem_singleton.mp ht]
  exact Or.inr (Or.inl h)

end Authored

theorem SchemaNode.lookupsList_append (a b : List SchemaNode) :
    lookupsList (a ++ b) = lookupsList a ++ lookupsList b := by
  induction a with
  | nil => rfl
  | cons node rest ih => rw [List.cons_append, lookupsList, lookupsList, ih, List.append_assoc]

/-! ## Declarations -/

namespace Build

variable {file : String} {W : List RefName}

mutual

/-- A field and what it declares in place look up only what was written for it, or what needs no
author. -/
theorem field_authored {owner : Head} {property : String} : (schema : FieldSchema) →
    ∀ {kind hoisted}, field file owner property schema = .ok (kind, hoisted) → Authored W schema.written →
      Authored W kind.lookups ∧ Authored W (SchemaNode.lookupsList hoisted)
  | .string _, _, _, h, _ => by cases h; exact ⟨.nil, .nil⟩
  | .integer _, _, _, h, _ => by cases h; exact ⟨.nil, .nil⟩
  | .float _, _, _, h, _ => by cases h; exact ⟨.nil, .nil⟩
  | .bool _, _, _, h, _ => by cases h; exact ⟨.nil, .nil⟩
  | .bytes _, _, _, h, _ => by cases h; exact ⟨.nil, .nil⟩
  | .key _, _, _, h, _ => by cases h; exact ⟨.nil, .nil⟩
  | .decimal _, _, _, h, _ => by cases h; exact ⟨.wellKnown (by decide), .nil⟩
  | .date _, _, _, h, _ => by cases h; exact ⟨.wellKnown (by decide), .nil⟩
  | .timestamp _, _, _, h, _ => by cases h; exact ⟨.wellKnown (by decide), .nil⟩
  | .any _, _, _, h, _ => by cases h; exact ⟨.wellKnown (by decide), .nil⟩
  | .enum (.named _) _ _, _, _, h, hW => by cases h; exact ⟨hW, .nil⟩
  | .object (.named _) _, _, _, h, hW => by cases h; exact ⟨hW, .nil⟩
  | .oneof (.named _), _, _, h, hW => by cases h; exact ⟨hW, .nil⟩
  | .polymorph (.named _), _, _, h, hW => by cases h; exact ⟨hW, .nil⟩
  | .enum (.inline decl) _ _, _, _, h, _ => by
      rw [field] at h
      obtain ⟨node, hnode, h⟩ := bind_eq_ok h
      cases h
      exact ⟨.plain _, .nil⟩
  | .polymorph (.inline decl), _, _, h, _ => by
      rw [field] at h
      obtain ⟨node, hnode, h⟩ := bind_eq_ok h
      cases h
      exact ⟨.plain _, .nil⟩
  | .object (.inline decl) _, _, _, h, hW => by
      rw [field] at h
      obtain ⟨node, hnode, h⟩ := bind_eq_ok h
      cases h
      exact ⟨.plain _, (object_authored decl hnode hW).append .nil⟩
  | .oneof (.inline decl), _, _, h, hW => by
      rw [field] at h
      obtain ⟨node, hnode, h⟩ := bind_eq_ok h
      cases h
      exact ⟨.plain _, (oneof_authored decl hnode hW).append .nil⟩
  | .array items _ _, _, _, h, hW => by
      rw [field] at h
      obtain ⟨⟨item, hoisted⟩, hitem, h⟩ := bind_eq_ok h
      cases h
      rw [FieldSchema.written] at hW
      rw [FieldNode.lookups]
      exact field_authored items hitem hW
  | .map items _, _, _, h, hW => by
      rw [field] at h
      obtain ⟨⟨item, hoisted⟩, hitem, h⟩ := bind_eq_ok h
      cases h
      rw [FieldSchema.written] at hW
      rw [FieldNode.lookups]
      exact field_authored items hitem hW

theorem property_authored {owner : Head} {names : List String} {numbers : List Int} {place : Nat} :
    (decl : PropertyDecl) → ∀ {node hoisted},
      property file owner names numbers place decl = .ok (node, hoisted) → Authored W decl.written →
        Authored W node.field.lookups ∧ Authored W (SchemaNode.lookupsList hoisted)
  | { name, description, required, optional, entityKey, number, schema, span }, _, _, h, hW => by
      rw [property] at h
      obtain ⟨n, -, h⟩ := bind_eq_ok h
      obtain ⟨⟨kind, hoisted⟩, hkind, h⟩ := bind_eq_ok h
      cases h
      exact field_authored schema hkind hW

theorem properties_authored {owner : Head} {names : List String} {numbers : List Int}
    {place : Nat} : (decls : List PropertyDecl) → ∀ {nodes hoisted},
      properties file owner names numbers place decls = .ok (nodes, hoisted) →
        Authored W (PropertyDecl.writtenList decls) →
        Authored W (PropertyNode.lookups nodes) ∧ Authored W (SchemaNode.lookupsList hoisted)
  | [], _, _, h, _ => by cases h; exact ⟨.nil, .nil⟩
  | decl :: rest, _, _, h, hW => by
      rw [properties] at h
      obtain ⟨⟨node, hoisted⟩, hnode, h⟩ := bind_eq_ok h
      obtain ⟨⟨nodes, others⟩, hrest, h⟩ := bind_eq_ok h
      cases h
      rw [PropertyDecl.writtenList] at hW
      obtain ⟨hdecl, hdecls⟩ := List.forall_mem_append.mp hW
      obtain ⟨hnode, hhoisted⟩ := property_authored decl hnode hdecl
      obtain ⟨hnodes, hothers⟩ := properties_authored rest hrest hdecls
      rw [SchemaNode.lookupsList_append]
      exact ⟨hnode.append hnodes, hhoisted.append hothers⟩

theorem object_authored {nest : List String} {name : String} : (decl : ObjectDecl) →
    ∀ {node}, object file nest name decl = .ok node → Authored W decl.written → Authored W node.lookups
  | { name := _, description, properties := props, schemas, polymorphMember, span }, _, h, hW => by
      rw [object] at h
      obtain ⟨_, -, h⟩ := bind_eq_ok h
      obtain ⟨declared, hdeclared, h⟩ := bind_eq_ok h
      obtain ⟨⟨nodes, hoisted⟩, hprops, h⟩ := bind_eq_ok h
      cases h
      rw [ObjectDecl.written] at hW
      obtain ⟨hown, hschemas⟩ := List.forall_mem_append.mp hW
      obtain ⟨hmember, hown⟩ := List.forall_mem_append.mp hown
      obtain ⟨hnodes, hhoisted⟩ := properties_authored props hprops hown
      rw [ObjectNode.lookups, SchemaNode.lookupsList_append]
      exact (Authored.append hmember hnodes).append
        ((declarations_authored schemas hdeclared hschemas).append hhoisted)

theorem oneof_authored {nest : List String} {name : String} : (decl : OneofDecl) →
    ∀ {node}, oneof file nest name decl = .ok node → Authored W decl.written → Authored W node.lookups
  | { name := _, description, properties := props, schemas, span }, _, h, hW => by
      rw [oneof] at h
      obtain ⟨_, -, h⟩ := bind_eq_ok h
      obtain ⟨declared, hdeclared, h⟩ := bind_eq_ok h
      obtain ⟨⟨nodes, hoisted⟩, hprops, h⟩ := bind_eq_ok h
      obtain ⟨_, -, h⟩ := bind_eq_ok h
      cases h
      rw [OneofDecl.written] at hW
      obtain ⟨hown, hschemas⟩ := List.forall_mem_append.mp hW
      obtain ⟨hnodes, hhoisted⟩ := properties_authored props hprops hown
      rw [OneofNode.lookups, SchemaNode.lookupsList_append]
      exact hnodes.append ((declarations_authored schemas hdeclared hschemas).append hhoisted)

theorem declaration_authored {nest : List String} : (decl : Declaration) →
    ∀ {node}, declaration file nest decl = .ok node → Authored W decl.written → Authored W node.lookups
  | .object decl, _, h, hW => by
      rw [declaration] at h
      obtain ⟨node, hnode, h⟩ := bind_eq_ok h
      cases h
      exact object_authored decl hnode hW
  | .oneof decl, _, h, hW => by
      rw [declaration] at h
      obtain ⟨node, hnode, h⟩ := bind_eq_ok h
      cases h
      exact oneof_authored decl hnode hW
  | .enum decl, _, h, _ => by
      rw [declaration] at h
      obtain ⟨node, hnode, h⟩ := bind_eq_ok h
      cases h
      exact .nil
  | .polymorph decl, _, h, _ => by
      rw [declaration] at h
      obtain ⟨node, hnode, h⟩ := bind_eq_ok h
      cases h
      exact .nil

theorem declarations_authored {nest : List String} : (decls : List Declaration) →
    ∀ {nodes}, declarations file nest decls = .ok nodes → Authored W (Declaration.writtenList decls) →
      Authored W (SchemaNode.lookupsList nodes)
  | [], _, h, _ => by cases h; exact .nil
  | decl :: rest, _, h, hW => by
      rw [declarations] at h
      obtain ⟨node, hnode, h⟩ := bind_eq_ok h
      obtain ⟨nodes, hrest, h⟩ := bind_eq_ok h
      cases h
      rw [Declaration.writtenList] at hW
      obtain ⟨hdecl, hdecls⟩ := List.forall_mem_append.mp hW
      exact (declaration_authored decl hnode hdecl).append (declarations_authored rest hrest hdecls)

end

theorem payload_authored {name : String} {span : Span} {props : List PropertyDecl} {node : ObjectNode}
    (h : payload file name span props = .ok node) (hW : Authored W (PropertyDecl.writtenList props)) :
    Authored W node.lookups := by
  obtain ⟨⟨nodes, hoisted⟩, hprops, h⟩ := bind_eq_ok h
  cases h
  obtain ⟨hnodes, hhoisted⟩ := properties_authored props hprops hW
  rw [ObjectNode.lookups]
  exact (Authored.append .nil hnodes).append hhoisted

end Build

/-! ## Entities -/

theorem PropertyDecl.writtenList_eq (decls : List PropertyDecl) :
    writtenList decls = decls.flatMap written := by
  induction decls with
  | nil => rfl
  | cons decl rest ih => rw [writtenList, ih, List.flatMap_cons]

theorem PropertyDecl.writtenList_append (a b : List PropertyDecl) :
    writtenList (a ++ b) = writtenList a ++ writtenList b := by
  rw [writtenList_eq, writtenList_eq, writtenList_eq, List.flatMap_append]

/-- An object without schemas of its own and outside all polymorphs names what its properties name. -/
theorem ObjectDecl.authored_of_properties {W : List RefName} {decl : ObjectDecl}
    (h : Authored W (PropertyDecl.writtenList decl.properties)) (hmember : decl.polymorphMember = [])
    (hschemas : decl.schemas = []) : Authored W decl.written := by
  cases decl
  cases hmember
  cases hschemas
  rw [ObjectDecl.written]
  exact .append (.append .nil h) .nil

theorem ObjectNode.lookups_with (node : ObjectNode) (head : Head) (entity : Option EntityRef) :
    { node with head, entity }.lookups = node.lookups := by
  cases node
  rfl

theorem MethodDecl.authored_payloads {decl : MethodDecl} {W : List RefName} (h : decl.written ⊆ W) :
    ∀ p ∈ Payload.ofMethod decl, Authored W (PropertyDecl.writtenList p.properties) := by
  obtain ⟨hrequest, hresponse⟩ := List.append_subset.mp h
  rw [Payload.ofMethod, List.forall_mem_cons, List.forall_mem_singleton]
  exact ⟨.of_subset hrequest, .of_subset hresponse⟩

namespace Entity

variable {file : String} {decl : EntityDecl} {names : Names} {W : List RefName}

theorem written_requestKey (key : PropertyDecl) : (requestKey key).written = key.written := by
  cases key
  rfl

/-- A request names what the keys of the entity name. -/
theorem keys_authored (decl : EntityDecl) (keep : PropertyDecl → Bool) :
    Authored decl.written (PropertyDecl.writtenList ((decl.keys.filter keep).map requestKey)) := by
  refine .of_subset fun t ht => List.mem_append_left _ ?_
  rw [PropertyDecl.writtenList_eq, List.flatMap_map] at ht
  obtain ⟨key, hkey, ht⟩ := List.mem_flatMap.mp ht
  rw [written_requestKey] at ht
  rw [PropertyDecl.writtenList_eq]
  exact List.mem_flatMap_of_mem (List.mem_of_mem_filter hkey) ht

theorem query_authored (decl : EntityDecl) (names : Names) : ∀ p ∈ Payload.ofQuery decl names,
    Authored decl.written (PropertyDecl.writtenList p.properties) := by
  have hpage : Authored decl.written (PropertyDecl.writtenList pageAndQuery) :=
    .append (.wellKnown (by decide)) (.append (.wellKnown (by decide)) .nil)
  have hget : Authored decl.written (PropertyDecl.writtenList (getResponse decl names)) := by
    rw [getResponse]
    split
    · exact .append (.plain _) (.append (.plain _) .nil)
    · exact .append (.plain _) .nil
  have hrequest : ∀ keep, Authored decl.written
      (PropertyDecl.writtenList ((decl.keys.filter keep).map requestKey ++ pageAndQuery)) := by
    intro keep
    rw [PropertyDecl.writtenList_append]
    exact (keys_authored decl keep).append hpage
  have hresponse : ∀ name other, Authored decl.written (PropertyDecl.writtenList
      [numbered name 1 false (listing { schema := other }),
        numbered "page" 2 false (holding WellKnown.pageResponse)]) :=
    fun name other => .append (.plain _) (.append (.wellKnown (by decide)) .nil)
  intro p hp
  simp only [Payload.ofQuery, List.mem_cons, List.not_mem_nil, or_false] at hp
  rcases hp with rfl | rfl | rfl | rfl | rfl | rfl
  · exact keys_authored decl _
  · exact hget
  · exact hrequest _
  · exact hresponse _ _
  · exact hrequest _
  · exact hresponse _ _

theorem payloads_authored (decl : EntityDecl) (names : Names) :
    ∀ p ∈ Payload.ofEntity decl names,
      Authored decl.written (PropertyDecl.writtenList p.properties) := by
  rw [Payload.ofEntity, List.forall_mem_append, List.forall_mem_append, List.forall_mem_cons,
    List.forall_mem_map]
  refine ⟨⟨query_authored decl names, fun p hp => ?_⟩, ?_, fun summary hsummary => ?_⟩
  · obtain ⟨group, hgroup, hp⟩ := List.mem_flatMap.mp hp
    obtain ⟨method, hmethod, hp⟩ := List.mem_flatMap.mp hp
    refine MethodDecl.authored_payloads (fun t ht => ?_) p hp
    exact List.mem_append_right _ (List.mem_append_right _ (List.mem_append_right _
      (List.mem_append_left _ (List.mem_flatMap_of_mem hgroup (List.mem_flatMap_of_mem hmethod ht)))))
  · exact .append (.wellKnown (by decide)) (.append (.plain _) (.append (.plain _)
      (.append (.plain _) (.append (.plain _) .nil))))
  · refine .append (.wellKnown (by decide)) (.append (.plain _) (.of_subset fun t ht => ?_))
    exact List.mem_append_right _ (List.mem_append_right _ (List.mem_append_right _
      (List.mem_append_right _ (List.mem_append_left _ (List.mem_flatMap_of_mem hsummary ht)))))

theorem branches_authored {nest : List String} {place : Nat} {events : List EventDecl}
    {parts : List (ObjectNode × PropertyDecl)} (h : branches file nest place events = .ok parts)
    (hW : ∀ event ∈ events, PropertyDecl.writtenList event.properties ⊆ W) :
    Authored W (SchemaNode.lookupsList (parts.map fun part => SchemaNode.object part.1)) ∧
      Authored W (PropertyDecl.writtenList (parts.map Prod.snd)) := by
  induction events generalizing place parts with
  | nil =>
      cases h
      exact ⟨.nil, .nil⟩
  | cons event rest ih =>
      rw [branches] at h
      obtain ⟨node, hnode, h⟩ := bind_eq_ok h
      obtain ⟨others, hothers, h⟩ := bind_eq_ok h
      cases h
      obtain ⟨hlookups, hwritten⟩ := ih hothers fun event he => hW event (List.mem_cons_of_mem _ he)
      refine ⟨.append (Build.object_authored _ hnode ?_) hlookups, .append (.plain _) hwritten⟩
      exact ObjectDecl.authored_of_properties (.of_subset (hW event List.mem_cons_self)) rfl rfl

theorem eventType_authored {node : OneofNode} (h : eventType file decl names = .ok node) :
    Authored decl.written node.lookups := by
  obtain ⟨parts, hparts, h⟩ := bind_eq_ok h
  obtain ⟨⟨props, hoisted⟩, hprops, h⟩ := bind_eq_ok h
  cases h
  obtain ⟨hobjects, hwritten⟩ := branches_authored (W := decl.written) hparts fun event hevent t ht =>
    List.mem_append_right _ (List.mem_append_right _
      (List.mem_append_left _ (List.mem_flatMap_of_mem hevent ht)))
  obtain ⟨hnodes, hhoisted⟩ := Build.properties_authored _ hprops hwritten
  rw [OneofNode.lookups, SchemaNode.lookupsList_append]
  exact hnodes.append (hobjects.append hhoisted)

/-- The keys and the data of an entity are objects with properties and nothing else. -/
theorem declaredPart_authored {ending : String} {part : EntityPart} {properties : List PropertyDecl}
    {node : ObjectNode} (h : declaredPart file decl names ending part properties = .ok node)
    (hsub : PropertyDecl.writtenList properties ⊆ W) : Authored W node.lookups := by
  obtain ⟨built, hbuilt, h⟩ := bind_eq_ok h
  cases h
  rw [ObjectNode.lookups_with built]
  exact Build.object_authored _ hbuilt (ObjectDecl.authored_of_properties (.of_subset hsub) rfl rfl)

theorem generatedPart_authored {ending : String} {part : EntityPart} {description : Option String}
    {properties : List PropertyDecl} {node : ObjectNode}
    (h : generatedPart file decl names ending part description properties = .ok node)
    (hproperties : Authored W (PropertyDecl.writtenList properties)) : Authored W node.lookups := by
  obtain ⟨built, hbuilt, h⟩ := bind_eq_ok h
  cases h
  rw [ObjectNode.lookups_with built]
  exact Build.payload_authored hbuilt hproperties

theorem state_authored {filters : List String} {node : ObjectNode}
    (h : Entity.state file decl names filters = .ok node) : Authored W node.lookups :=
  generatedPart_authored h (.append (.wellKnown (by decide)) (.append (.plain _) (.append (.plain _)
    (.append (.plain _) .nil))))

theorem event_authored {node : ObjectNode} (h : Entity.event file decl names = .ok node) :
    Authored W node.lookups :=
  generatedPart_authored h
    (.append (.wellKnown (by decide)) (.append (.plain _) (.append (.plain _) .nil)))

end Entity

/-! ## Documents -/

/-- Objects look up no more than the properties of the payloads that they are built from name. -/
theorem Payload.authored_objects {file : String} {W : List RefName} {payloads : List Payload}
    {objects : List ObjectNode} (h : List.Forall₂ (Builds file) payloads objects)
    (hW : ∀ p ∈ payloads, Authored W (PropertyDecl.writtenList p.properties)) :
    Authored W (objects.flatMap ObjectNode.lookups) := by
  induction h with
  | nil => exact .nil
  | cons hbuilds _ ih =>
      obtain ⟨span, hbuilds⟩ := hbuilds
      rw [List.forall_mem_cons] at hW
      exact (Build.payload_authored hbuilds hW.1).append (ih hW.2)

theorem Element.authored_payloads {element : Element} : ∀ p ∈ element.payloads,
    Authored element.written (PropertyDecl.writtenList p.properties) := by
  cases element with
  | service decl =>
      intro p hp
      obtain ⟨method, hmethod, hp⟩ := List.mem_flatMap.mp hp
      exact MethodDecl.authored_payloads (fun t ht => List.mem_flatMap_of_mem hmethod ht) p hp
  | topic decl =>
      rw [payloads, List.forall_mem_map]
      exact fun message hmessage => .of_subset fun t ht => List.mem_flatMap_of_mem hmessage ht
  | entity decl => exact Entity.payloads_authored decl _
  | _ => exact fun p hp => absurd hp List.not_mem_nil

theorem Element.schemas_authored {file : String} {element : Element} {nodes : List RootNode}
    (h : element.nodes file = .ok nodes) : ∀ root ∈ nodes, ∀ node, root = .schema node →
      Authored element.written node.lookups := by
  cases element with
  | object decl =>
      obtain ⟨built, hbuilt, h⟩ := bind_eq_ok h
      cases h
      rw [List.forall_mem_singleton]
      rintro _ ⟨⟩
      exact Build.object_authored decl hbuilt (.of_subset (List.Subset.refl _))
  | oneof decl =>
      obtain ⟨built, hbuilt, h⟩ := bind_eq_ok h
      cases h
      rw [List.forall_mem_singleton]
      rintro _ ⟨⟩
      exact Build.oneof_authored decl hbuilt (.of_subset (List.Subset.refl _))
  | enum decl | polymorph decl =>
      obtain ⟨built, -, h⟩ := bind_eq_ok h
      cases h
      rw [List.forall_mem_singleton]
      rintro _ ⟨⟩
      exact .nil
  | service decl | topic decl =>
      obtain ⟨built, -, h⟩ := bind_eq_ok h
      cases h
      rw [List.forall_mem_singleton]
      rintro _ ⟨⟩
  | entity decl =>
      obtain ⟨e, rfl⟩ := Entity.exists_expansion h
      refine Entity.Expansion.forall_roots.mpr ⟨⟨?_, ?_, ?_, ?_, ?_, ?_, fun node hnode => ?_⟩,
        ⟨?_, fun _ _ => ?_⟩, ?_, fun _ _ => ?_⟩ <;> rintro _ ⟨⟩
      · exact Entity.declaredPart_authored e.keys_eq fun t ht => List.mem_append_left _ ht
      · exact Entity.declaredPart_authored e.data_eq fun t ht =>
          List.mem_append_right _ (List.mem_append_left _ ht)
      · exact .nil
      · exact Entity.state_authored e.state_eq
      · exact Entity.eventType_authored e.eventType_eq
      · exact Entity.event_authored e.event_eq
      · intro t ht
        refine Build.declarations_authored decl.schemas e.schemas_eq (.of_subset fun t ht => ?_) t
          (SchemaNode.mem_lookupsList.mpr ⟨node, hnode, ht⟩)
        exact List.mem_append_right _ (List.mem_append_right _ (List.mem_append_right _
          (List.mem_append_right _ (List.mem_append_right _ ht))))

theorem Element.nodes_authored {file : String} {element : Element} {nodes : List RootNode}
    (h : element.nodes file = .ok nodes) : ∀ root ∈ nodes, Authored element.written root.lookups := by
  have hpayloads : Authored element.written
      ((nodes.flatMap RootNode.payloads).flatMap ObjectNode.lookups) :=
    Payload.authored_objects (nodes_payloads h) authored_payloads
  rw [List.flatMap_assoc] at hpayloads
  intro root hroot
  cases root with
  | schema node => exact schemas_authored h _ hroot node rfl
  | service node | topic node => exact fun t ht => hpayloads t (List.mem_flatMap_of_mem hroot ht)

/-- Whatever a document looks up was written in it, has no package, or is well known. -/
theorem Document.lookups_authored (d : Document) : Authored d.written d.lookups := by
  refine .flatMap fun root hroot => ?_
  obtain ⟨element, helement, nodes, hnodes, hroot⟩ := exists_element hroot
  exact (Element.nodes_authored hnodes root hroot).mono fun t ht => List.mem_flatMap_of_mem helement ht

end Schematic
