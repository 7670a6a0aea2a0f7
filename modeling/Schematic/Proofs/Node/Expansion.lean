import Schematic.Node.Walk
import Schematic.Proofs.Package.Repository

/-!
# The parts of an entity

An entity that can be written out has all its parts, each built as its own definition says, and
becomes these parts in a fixed order.  Some of the parts hold well-known types.
-/

namespace Schematic
namespace Entity

/-! ## Default filters -/

/-- Either every filter is a status once the prefix is off, or one that is none is reported. -/
theorem statusFilters_cases (file : String) (decl : EntityDecl) (names : Names) (query : EntityQuery)
    (filters : List String) :
    (∀ f ∈ filters, Build.bareName names.statusPrefix f ∈ decl.status.map StatusDecl.name) ∧
      statusFilters file decl names query filters =
        .ok (filters.map (Build.bareName names.statusPrefix)) ∨
    ∃ f ∈ filters, Build.bareName names.statusPrefix f ∉ decl.status.map StatusDecl.name ∧
      statusFilters file decl names query filters =
        .error (.unknownStatusFilter names.camel f ⟨file, query.span⟩) := by
  induction filters with
  | nil => exact .inl ⟨fun _ h => absurd h List.not_mem_nil, rfl⟩
  | cons f rest ih =>
      by_cases hf : Build.bareName names.statusPrefix f ∈ decl.status.map StatusDecl.name
      · have hstep : statusFilters file decl names query (f :: rest) =
            statusFilters file decl names query rest >>= fun others =>
              .ok (Build.bareName names.statusPrefix f :: others) := by
          rw [statusFilters, if_pos (List.contains_iff_mem.mpr hf)]
          rfl
        rcases ih with ⟨hrest, hok⟩ | ⟨g, hg, hunknown, herror⟩
        · refine .inl ⟨List.forall_mem_cons.mpr ⟨hf, hrest⟩, ?_⟩
          rw [hstep, hok]
          rfl
        · refine .inr ⟨g, List.mem_cons_of_mem _ hg, hunknown, ?_⟩
          rw [hstep, herror]
          rfl
      · refine .inr ⟨f, List.mem_cons_self, hf, ?_⟩
        rw [statusFilters, if_neg (fun h => hf (List.contains_iff_mem.mp h))]

/-- The filters of the query without their prefix. -/
def keptFilters (decl : EntityDecl) (names : Names) : List String :=
  (decl.query.elim [] EntityQuery.defaultStatusFilter).map (Build.bareName names.statusPrefix)

theorem defaultFilters_ok {file : String} {decl : EntityDecl} {names : Names} {filters : List String}
    (h : defaultFilters file decl names = .ok filters) : filters = keptFilters decl names := by
  rw [keptFilters]
  unfold defaultFilters at h
  split at h
  · rename_i hquery
    cases h
    rw [hquery]
    rfl
  · rename_i query hquery
    rw [hquery]
    rcases statusFilters_cases file decl names query query.defaultStatusFilter with
      ⟨-, hok⟩ | ⟨_, -, -, herror⟩
    · cases hok.symm.trans h
      rfl
    · cases herror.symm.trans h

/-! ## Parts -/

/-- The parts that an entity becomes. -/
structure Expansion (file : String) (decl : EntityDecl) where
  filters : List String
  keys : ObjectNode
  data : ObjectNode
  status : EnumNode
  state : ObjectNode
  eventType : OneofNode
  event : ObjectNode
  query : ServiceNode
  commands : List ServiceNode
  publish : TopicNode
  summaries : List TopicNode
  schemas : List SchemaNode
  keys_eq : Entity.keys file decl (.ofDecl decl.name) = .ok keys
  data_eq : Entity.data file decl (.ofDecl decl.name) = .ok data
  status_eq : Entity.status file decl (.ofDecl decl.name) = .ok status
  state_eq : Entity.state file decl (.ofDecl decl.name) filters = .ok state
  eventType_eq : Entity.eventType file decl (.ofDecl decl.name) = .ok eventType
  event_eq : Entity.event file decl (.ofDecl decl.name) = .ok event
  query_eq : queryService file decl (.ofDecl decl.name) = .ok query
  commands_eq : decl.commands.mapM (commandService file decl (.ofDecl decl.name)) = .ok commands
  publish_eq : publishTopic file decl (.ofDecl decl.name) = .ok publish
  summaries_eq : decl.summaries.mapM (summaryTopic file (.ofDecl decl.name)) = .ok summaries
  schemas_eq : Build.declarations file [] decl.schemas = .ok schemas

namespace Expansion

variable {file : String} {decl : EntityDecl}

def roots (e : Expansion file decl) : List RootNode :=
  [.schema (.object e.keys), .schema (.object e.data), .schema (.enum e.status),
      .schema (.object e.state), .schema (.oneof e.eventType), .schema (.object e.event),
      .service e.query] ++
    e.commands.map .service ++ [.topic e.publish] ++ e.summaries.map .topic ++ e.schemas.map .schema

theorem forall_roots {e : Expansion file decl} {P : RootNode → Prop} : (∀ root ∈ e.roots, P root) ↔
    (P (.schema (.object e.keys)) ∧ P (.schema (.object e.data)) ∧ P (.schema (.enum e.status)) ∧
      P (.schema (.object e.state)) ∧ P (.schema (.oneof e.eventType)) ∧
      P (.schema (.object e.event)) ∧ ∀ node ∈ e.schemas, P (.schema node)) ∧
    (P (.service e.query) ∧ ∀ node ∈ e.commands, P (.service node)) ∧
    (P (.topic e.publish) ∧ ∀ node ∈ e.summaries, P (.topic node)) := by
  simp only [roots, List.forall_mem_append, List.forall_mem_cons, List.forall_mem_map]
  have hnil : ∀ x : RootNode, x ∈ [] → P x := fun _ h => absurd h List.not_mem_nil
  tauto

end Expansion

/-- The filters of the parts are the default filters of the entity. -/
theorem exists_expansion_filters {file : String} {decl : EntityDecl} {nodes : List RootNode}
    (h : expand file decl = .ok nodes) : ∃ e : Expansion file decl, nodes = e.roots ∧
      defaultFilters file decl (.ofDecl decl.name) = .ok e.filters := by
  obtain ⟨_, -, h⟩ := bind_eq_ok h
  obtain ⟨_, -, h⟩ := bind_eq_ok h
  obtain ⟨filters, hfilters, h⟩ := bind_eq_ok h
  obtain ⟨keys, keys_eq, h⟩ := bind_eq_ok h
  obtain ⟨data, data_eq, h⟩ := bind_eq_ok h
  obtain ⟨status, status_eq, h⟩ := bind_eq_ok h
  obtain ⟨state, state_eq, h⟩ := bind_eq_ok h
  obtain ⟨eventType, eventType_eq, h⟩ := bind_eq_ok h
  obtain ⟨event, event_eq, h⟩ := bind_eq_ok h
  obtain ⟨query, query_eq, h⟩ := bind_eq_ok h
  obtain ⟨commands, commands_eq, h⟩ := bind_eq_ok h
  obtain ⟨publish, publish_eq, h⟩ := bind_eq_ok h
  obtain ⟨summaries, summaries_eq, h⟩ := bind_eq_ok h
  obtain ⟨schemas, schemas_eq, h⟩ := bind_eq_ok h
  cases h
  exact ⟨{ filters, keys, data, status, state, eventType, event, query, commands, publish, summaries,
           schemas, keys_eq, data_eq, status_eq, state_eq, eventType_eq, event_eq, query_eq,
           commands_eq, publish_eq, summaries_eq, schemas_eq }, rfl, hfilters⟩

theorem exists_expansion {file : String} {decl : EntityDecl} {nodes : List RootNode}
    (h : expand file decl = .ok nodes) : ∃ e : Expansion file decl, nodes = e.roots := by
  obtain ⟨e, hroots, -⟩ := exists_expansion_filters h
  exact ⟨e, hroots⟩

end Entity

/-! ## Properties that name a schema -/

/-- A property is built under its own name, and its kind from its schema. -/
theorem Build.exists_built {file : String} {owner : Head} {names : List String} {numbers : List Int}
    {place : Nat} {decls : List PropertyDecl} {nodes : List PropertyNode} {hoisted : List SchemaNode}
    (h : properties file owner names numbers place decls = .ok (nodes, hoisted)) {decl : PropertyDecl}
    (hdecl : decl ∈ decls) :
    ∃ p ∈ nodes, p.name = decl.name ∧
      ∃ inner, field file owner decl.name decl.schema = .ok (p.field, inner) := by
  induction decls generalizing names numbers place nodes hoisted with
  | nil => cases hdecl
  | cons first rest ih =>
      rw [properties] at h
      obtain ⟨⟨node, inner⟩, hnode, h⟩ := bind_eq_ok h
      obtain ⟨⟨others, outer⟩, hrest, h⟩ := bind_eq_ok h
      cases h
      rcases List.mem_cons.mp hdecl with rfl | hdecl
      · cases decl
        rw [property] at hnode
        obtain ⟨number, -, hnode⟩ := bind_eq_ok hnode
        obtain ⟨⟨kind, inner⟩, hkind, hnode⟩ := bind_eq_ok hnode
        cases hnode
        exact ⟨_, List.mem_cons_self, rfl, inner, hkind⟩
      · obtain ⟨p, hp, hbuilt⟩ := ih hrest hdecl
        exact ⟨p, List.mem_cons_of_mem _ hp, hbuilt⟩

theorem Build.exists_built_of_payload {file name : String} {span : Span} {props : List PropertyDecl}
    {node : ObjectNode} (h : payload file name span props = .ok node) {decl : PropertyDecl}
    (hdecl : decl ∈ props) : ∃ p ∈ node.properties, p.name = decl.name ∧
      ∃ owner inner, field file owner decl.name decl.schema = .ok (p.field, inner) := by
  obtain ⟨⟨nodes, hoisted⟩, hprops, h⟩ := bind_eq_ok h
  cases h
  obtain ⟨p, hp, hname, hfield⟩ := exists_built hprops hdecl
  exact ⟨p, hp, hname, _, hfield⟩

theorem Build.exists_named_of_payload {file name : String} {span : Span} {props : List PropertyDecl}
    {node : ObjectNode} (h : payload file name span props = .ok node) {decl : PropertyDecl}
    (hdecl : decl ∈ props) {target : RefName} {flatten : Bool}
    (hschema : decl.schema = .object (.named target) flatten) :
    ∃ p ∈ node.properties, p.name = decl.name ∧ p.field = .object target flatten := by
  obtain ⟨p, hp, hname, owner, inner, hfield⟩ := exists_built_of_payload h hdecl
  rw [hschema, field] at hfield
  exact ⟨p, hp, hname, congrArg Prod.fst (Except.ok.inj hfield.symm)⟩

/-! ## Well-known types of an entity -/

def WellKnown.names : List RefName :=
  files.map Prod.fst

namespace Entity

/-- A property that an entity writes itself, and the well-known type that it holds. -/
structure Mention where
  object : ObjectNode
  property : String
  target : RefName

/-- The object has the property, and the property names the type. -/
structure Mention.Stands (m : Mention) : Prop where
  wellKnown : m.target ∈ WellKnown.names
  named : ∃ p ∈ m.object.properties, p.name = m.property ∧ p.field = .object m.target false

theorem Mention.Stands.of_named {object : ObjectNode} {property : String} {target : RefName}
    (hmem : target ∈ WellKnown.names)
    (h : ∃ p ∈ object.properties, p.name = property ∧ p.field = .object target false) :
    Mention.Stands ⟨object, property, target⟩ :=
  ⟨hmem, h⟩

/-- A query that lists takes a page and a query, and answers with a page. -/
def pages (method : MethodNode) : List Mention :=
  if method.query = some .get then []
  else
    [⟨method.request, "page", WellKnown.pageRequest⟩, ⟨method.request, "query", WellKnown.queryRequest⟩,
      ⟨method.response, "page", WellKnown.pageResponse⟩]

variable {file : String} {decl : EntityDecl} {names : Names}

/-- The well-known types that the parts of an entity hold. -/
def Expansion.mentions (e : Expansion file decl) : List Mention :=
  [⟨e.state, "metadata", WellKnown.stateMetadata⟩, ⟨e.event, "metadata", WellKnown.eventMetadata⟩] ++
    e.query.methods.flatMap pages ++
    e.publish.objects.map (⟨·, "metadata", WellKnown.eventPublishMetadata⟩) ++
    (e.summaries.flatMap TopicNode.objects).map (⟨·, "upsert", WellKnown.upsertMetadata⟩)

/-- A part whose first property holds a well-known type. -/
theorem generatedPart_mention {ending : String} {part : EntityPart} {description : Option String}
    {name : String} {target : RefName} {rest : List PropertyDecl} {node : ObjectNode}
    (h : generatedPart file decl names ending part description
      (numbered name 1 true (holding target) :: rest) = .ok node)
    (hmem : target ∈ WellKnown.names) : (⟨node, name, target⟩ : Mention).Stands := by
  obtain ⟨built, hbuilt, h⟩ := bind_eq_ok h
  cases h
  exact .of_named hmem (Build.exists_named_of_payload hbuilt List.mem_cons_self rfl)

theorem state_mention {filters : List String} {node : ObjectNode}
    (h : state file decl names filters = .ok node) :
    (⟨node, "metadata", WellKnown.stateMetadata⟩ : Mention).Stands :=
  generatedPart_mention h (by decide)

theorem event_mention {node : ObjectNode} (h : event file decl names = .ok node) :
    (⟨node, "metadata", WellKnown.eventMetadata⟩ : Mention).Stands :=
  generatedPart_mention h (by decide)

theorem queryMethod_pages {span : Span} {name path : String} {kind : QueryKind}
    {keys : List PropertyDecl} {listed : PropertyDecl} {node : MethodNode}
    (h : queryMethod file span name path kind (keys ++ pageAndQuery)
      [listed, numbered "page" 2 false (holding WellKnown.pageResponse)] = .ok node) :
    ∀ m ∈ pages node, m.Stands := by
  obtain ⟨request, hrequest, h⟩ := bind_eq_ok h
  obtain ⟨response, hresponse, h⟩ := bind_eq_ok h
  cases h
  rw [pages]
  split
  · exact fun m hm => absurd hm List.not_mem_nil
  · rw [List.forall_mem_cons, List.forall_mem_cons, List.forall_mem_singleton]
    refine ⟨.of_named (by decide) ?_, .of_named (by decide) ?_, .of_named (by decide) ?_⟩
    · exact Build.exists_named_of_payload hrequest (List.mem_append_right _ List.mem_cons_self) rfl
    · exact Build.exists_named_of_payload hrequest
        (List.mem_append_right _ (List.mem_cons_of_mem _ List.mem_cons_self)) rfl
    · exact Build.exists_named_of_payload hresponse (List.mem_cons_of_mem _ List.mem_cons_self) rfl

theorem queryService_mentions {node : ServiceNode} (h : queryService file decl names = .ok node) :
    ∀ m ∈ node.methods.flatMap pages, m.Stands := by
  obtain ⟨get, hget, h⟩ := bind_eq_ok h
  obtain ⟨list, hlist, h⟩ := bind_eq_ok h
  obtain ⟨events, hevents, h⟩ := bind_eq_ok h
  cases h
  have hnone : pages get = [] := by
    obtain ⟨request, -, hget⟩ := bind_eq_ok hget
    obtain ⟨response, -, hget⟩ := bind_eq_ok hget
    cases hget
    rfl
  rw [List.flatMap_cons, List.flatMap_cons, List.flatMap_singleton, hnone, List.nil_append,
    List.forall_mem_append]
  exact ⟨queryMethod_pages hlist, queryMethod_pages hevents⟩

/-- A topic whose message has a well-known type in its first property. -/
theorem messageTopic_mentions {span : Span} {topic message : String} {description : Option String}
    {shape : TopicShape} {name : String} {target : RefName} {rest : List PropertyDecl}
    {node : TopicNode} (h : messageTopic file span topic message description shape
      (numbered name 1 true (holding target) :: rest) = .ok node)
    (hmem : target ∈ WellKnown.names) :
    ∀ object ∈ node.objects, (⟨object, name, target⟩ : Mention).Stands := by
  obtain ⟨built, hbuilt, h⟩ := bind_eq_ok h
  cases h
  refine List.forall_mem_singleton.mpr ?_
  exact .of_named hmem (Build.exists_named_of_payload hbuilt List.mem_cons_self rfl)

theorem publishTopic_mentions {node : TopicNode} (h : publishTopic file decl names = .ok node) :
    ∀ object ∈ node.objects,
      (⟨object, "metadata", WellKnown.eventPublishMetadata⟩ : Mention).Stands :=
  messageTopic_mentions h (by decide)

theorem summaryTopic_mentions {summary : SummaryDecl} {node : TopicNode}
    (h : summaryTopic file names summary = .ok node) :
    ∀ object ∈ node.objects, (⟨object, "upsert", WellKnown.upsertMetadata⟩ : Mention).Stands :=
  messageTopic_mentions h (by decide)

theorem Expansion.mentions_stand (e : Expansion file decl) : ∀ m ∈ e.mentions, m.Stands := by
  rw [mentions, List.forall_mem_append, List.forall_mem_append, List.forall_mem_append,
    List.forall_mem_cons, List.forall_mem_singleton, List.forall_mem_map, List.forall_mem_map]
  refine ⟨⟨⟨⟨state_mention e.state_eq, event_mention e.event_eq⟩, queryService_mentions e.query_eq⟩,
    publishTopic_mentions e.publish_eq⟩, fun object hobject => ?_⟩
  obtain ⟨topic, htopic, hobject⟩ := List.mem_flatMap.mp hobject
  obtain ⟨summary, -, hsummary⟩ := exists_of_mem_mapM e.summaries_eq htopic
  exact summaryTopic_mentions hsummary object hobject

end Entity
end Schematic
