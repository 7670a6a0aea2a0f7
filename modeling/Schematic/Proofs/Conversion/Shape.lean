import Schematic.Proofs.Conversion.Inline

/-!
# The shape of converted files

A document that can be converted loses none of its nodes and gets none twice.  In each file a message
stands for each schema that is no enum, an enum for each enum, and a service for each service or topic,
all in the order of the nodes.  A message has a field for each property, and in it stand the messages and
enums of the schemas nested in its node.  Apart from these there are only the entries of maps.
-/

namespace Schematic

/-! ## Elements and their nodes -/

/-- A field has the name of its property, in both spellings, and its number. -/
structure PropertyNode.ShownBy (p : PropertyNode) (f : FieldDescriptor) : Prop where
  jsonName : f.jsonName = some p.name
  name : f.name = some (Case.snake p.name)
  number : f.number = some p.number

/-- An enum has the name of its node and the node's values. -/
structure EnumNode.ShownBy (node : EnumNode) (e : EnumDescriptor) : Prop where
  name : e.name = some node.head.name
  values : e.values.map (fun v => (v.name, v.number)) =
    node.values.map fun v => (some v.name, some v.number)

/-- The messages inside a message, without the entries of its maps. -/
def MessageDescriptor.declaredMessages (m : MessageDescriptor) : List MessageDescriptor :=
  m.nested.filter fun n => !n.isMapEntry

namespace SchemaNode

/-- The schemas that become messages. -/
def messages (nodes : List SchemaNode) : List SchemaNode :=
  nodes.filter fun
    | .enum _ => false
    | _ => true

/-- The schemas that become enums. -/
def enums (nodes : List SchemaNode) : List EnumNode :=
  nodes.filterMap fun
    | .enum node => some node
    | _ => none

/-- A message stands for a schema and for all that is nested in it. -/
inductive ShownBy : SchemaNode → MessageDescriptor → Prop
  | object {node : ObjectNode} {m : MessageDescriptor} (name : m.name = some node.head.name)
      (fields : List.Forall₂ PropertyNode.ShownBy node.properties m.fields)
      (messages : List.Forall₂ ShownBy (messages node.nested) m.declaredMessages)
      (enums : List.Forall₂ EnumNode.ShownBy (enums node.nested) m.enums) : ShownBy (.object node) m
  | oneof {node : OneofNode} {m : MessageDescriptor} (name : m.name = some node.head.name)
      (fields : List.Forall₂ PropertyNode.ShownBy node.properties m.fields)
      (messages : List.Forall₂ ShownBy (messages node.nested) m.declaredMessages)
      (enums : List.Forall₂ EnumNode.ShownBy (enums node.nested) m.enums) : ShownBy (.oneof node) m
  /-- A polymorph wraps one value. -/
  | polymorph {node : PolymorphNode} {m : MessageDescriptor} (name : m.name = some node.head.name)
      (fields : m.fields.map FieldDescriptor.name = [some "value"]) (nested : m.nested = [])
      (enums : m.enums = []) : ShownBy (.polymorph node) m

end SchemaNode

/-- What becomes a service of a file. -/
inductive ServiceSource where
  | service (node : ServiceNode)
  | topic (node : TopicNode)

/-- A method has the name of its node, and names two messages of its package. -/
structure MethodNode.ShownBy (package : String) (node : MethodNode) (m : MethodDescriptor) : Prop where
  name : m.name = some node.name
  input : m.inputType = some ("." ++ package ++ "." ++ node.request.head.name)
  output : m.outputType = some ("." ++ package ++ "." ++ node.response.head.name)

structure TopicMessageNode.ShownBy (package : String) (node : TopicMessageNode)
    (m : MethodDescriptor) : Prop where
  name : m.name = some node.name
  input : m.inputType = some ("." ++ package ++ "." ++ node.message.head.name)

/-- A service has a method for each method of its node, or for each message of its topic. -/
inductive ServiceSource.ShownBy (package : String) : ServiceSource → ServiceDescriptor → Prop
  | service {node : ServiceNode} {s : ServiceDescriptor} (name : s.name = some node.head.name)
      (methods : List.Forall₂ (MethodNode.ShownBy package) node.methods s.methods) :
      ShownBy package (.service node) s
  | topic {node : TopicNode} {s : ServiceDescriptor} (name : s.name = some (node.head.name ++ "Topic"))
      (methods : List.Forall₂ (TopicMessageNode.ShownBy package) node.messages s.methods) :
      ShownBy package (.topic node) s

/-- The nodes that a file is made from. -/
structure FileNodes where
  name : String
  package : String
  messages : List SchemaNode := []
  enums : List EnumNode := []
  services : List ServiceSource := []

/-- A file stands for its nodes and has nothing else at its top. -/
structure FileNodes.ShownBy (nodes : FileNodes) (f : FileDescriptor) : Prop where
  name : f.nameText = nodes.name
  package : f.packageText = nodes.package
  messages : List.Forall₂ SchemaNode.ShownBy nodes.messages f.messages
  enums : List.Forall₂ EnumNode.ShownBy nodes.enums f.enums
  services : List.Forall₂ (ServiceSource.ShownBy nodes.package) nodes.services f.services

namespace Document

variable (d : Document)

def mainNodes : FileNodes :=
  { name := FileName.mainFile d.path
    package := d.package
    messages := SchemaNode.messages (RootNode.schemas d.nodes)
    enums := SchemaNode.enums (RootNode.schemas d.nodes) }

/-- The services, and the request and the response of each of their methods. -/
def serviceNodes : FileNodes :=
  { name := d.serviceFile
    package := d.servicePackage
    messages := ((RootNode.services d.nodes).flatMap fun node =>
      node.methods.flatMap fun m => [.object m.request, .object m.response])
    services := (RootNode.services d.nodes).map .service }

/-- The topics and their messages. -/
def topicNodes : FileNodes :=
  { name := d.topicFile
    package := d.topicPackage
    messages := ((RootNode.topics d.nodes).flatMap fun node =>
      node.messages.map fun m => .object m.message)
    services := (RootNode.topics d.nodes).map .topic }

/-- The nodes of each file of a document.  There is a file for services where there is a service, and
one for topics where there is a topic. -/
def fileNodes : List FileNodes :=
  d.mainNodes ::
    ((if (RootNode.services d.nodes).isEmpty then [] else [d.serviceNodes]) ++
      if (RootNode.topics d.nodes).isEmpty then [] else [d.topicNodes])

end Document

/-! ## Fields -/

namespace PropertyNode

theorem forall₂_shownBy_iff {ps : List PropertyNode} {fs : List FieldDescriptor} :
    List.Forall₂ ShownBy ps fs ↔ ps.map (fun p => (some p.name, some (Case.snake p.name), some p.number)) =
      fs.map fun f => (f.jsonName, f.name, f.number) := by
  rw [← List.forall₂_eq_eq_eq, List.forall₂_map_left_iff, List.forall₂_map_right_iff]
  have hone : ∀ (p : PropertyNode) (f : FieldDescriptor), p.ShownBy f ↔
      (some p.name, some (Case.snake p.name), some p.number) = (f.jsonName, f.name, f.number) := by
    intro p f
    rw [Prod.mk.injEq, Prod.mk.injEq]
    exact ⟨fun h => ⟨h.jsonName.symm, h.name.symm, h.number.symm⟩,
      fun h => ⟨h.1.symm, h.2.1.symm, h.2.2.symm⟩⟩
  simp only [← hone]

end PropertyNode

namespace Conversion

variable {c : Conversion}

theorem layout_shownBy {message : String} {p : PropertyNode} {l : Layout}
    (h : c.layout message p = .ok l) : p.ShownBy l.field := by
  simp only [layout] at h
  split at h
  · split at h
    · cases h
    · obtain ⟨value, -, h⟩ := bind_eq_ok h
      cases h
      exact ⟨rfl, rfl, rfl⟩
  · split at h
    · cases h
    · obtain ⟨value, -, h⟩ := bind_eq_ok h
      cases h
      exact ⟨rfl, rfl, rfl⟩
  · obtain ⟨value, -, h⟩ := bind_eq_ok h
    cases h
    exact ⟨rfl, rfl, rfl⟩

theorem property_shownBy {message : String} {oneof : Option Int} {p : PropertyNode} {part : FieldPart}
    (h : c.property message oneof p = .ok part) : p.ShownBy part.field := by
  rw [property] at h
  split at h
  · cases h
  · obtain ⟨l, hl, h⟩ := bind_eq_ok h
    obtain ⟨⟨options, files⟩, -, h⟩ := bind_eq_ok h
    cases h
    obtain ⟨hjson, hname, hnumber⟩ := layout_shownBy hl
    exact ⟨hjson, hname, hnumber⟩

/-- Properties without errors all have parts. -/
theorem parts_of_no_errors {oneof : Option Int} {properties : List PropertyNode}
    (h : c.propertyErrors oneof properties = []) (message : String) :
    (c.parts message oneof properties).map Prod.fst = properties := by
  have hparts := exists_property h message
  clear h
  induction properties with
  | nil => rfl
  | cons p rest ih =>
      obtain ⟨part, hpart⟩ := hparts p List.mem_cons_self
      rw [parts_cons hpart, List.map_cons, ih fun p hp => hparts p (List.mem_cons_of_mem _ hp)]

theorem property_of_mem_parts {message : String} {oneof : Option Int} {properties : List PropertyNode}
    {p : PropertyNode} {part : FieldPart} (h : (p, part) ∈ c.parts message oneof properties) :
    c.property message oneof p = .ok part := by
  obtain ⟨p', -, hp'⟩ := List.mem_filterMap.mp h
  split at hp'
  · rename_i part' hproperty
    cases hp'
    exact hproperty
  · cases hp'

theorem shownBy_fields {oneof : Option Int} {properties : List PropertyNode}
    (h : c.propertyErrors oneof properties = []) (message : String)
    (oneofs : List (Described OneofDescriptor)) (synthetic : List Nat) :
    List.Forall₂ PropertyNode.ShownBy properties
      (MessageDraft.lowered (fields (c.parts message oneof properties)) oneofs synthetic).1 := by
  have hparts : List.Forall₂ PropertyNode.ShownBy ((c.parts message oneof properties).map Prod.fst)
      ((fields (c.parts message oneof properties)).map Described.element) := by
    rw [fields, List.map_map, List.forall₂_map_left_iff, List.forall₂_map_right_iff]
    exact List.forall₂_same.mpr fun part hpart => property_shownBy (property_of_mem_parts hpart)
  rw [parts_of_no_errors h, PropertyNode.forall₂_shownBy_iff] at hparts
  rw [PropertyNode.forall₂_shownBy_iff, hparts]
  exact (MessageDraft.map_lowered (fun _ _ => rfl) _ _ _).symm

/-! ## Messages and enums -/

theorem enum_shownBy (node : EnumNode) : node.ShownBy (enumDraft node).descriptor := by
  refine ⟨rfl, ?_⟩
  rw [enumDraft, EnumDraft.descriptor, List.map_map, List.map_map]
  rfl

theorem polymorph_shownBy (node : PolymorphNode) :
    (SchemaNode.polymorph node).ShownBy (polymorphDraft node).descriptor :=
  .polymorph rfl rfl rfl rfl

/-- Without the entries of maps, the messages inside a message are those of the nested schemas. -/
theorem filter_declared (message outer : String) (oneof : Option Int) (properties : List PropertyNode)
    (nested : List SchemaNode) :
    ((MessageDraft.descriptors (entries (c.parts message oneof properties) ++
      c.messageDrafts outer nested)).filter fun n => !n.isMapEntry) =
        MessageDraft.descriptors (c.messageDrafts outer nested) := by
  rw [MessageDraft.descriptors_append, List.filter_append]
  have hentries : ((MessageDraft.descriptors (entries (c.parts message oneof properties))).filter
      fun n => !n.isMapEntry) = [] := by
    refine List.filter_eq_nil_iff.mpr fun m hm => ?_
    rw [isMapEntry_entries hm]
    exact Bool.false_ne_true
  have hmessages : ((MessageDraft.descriptors (c.messageDrafts outer nested)).filter
      fun n => !n.isMapEntry) = MessageDraft.descriptors (c.messageDrafts outer nested) := by
    refine List.filter_eq_self.mpr fun m hm => ?_
    rw [isMapEntry_messageDrafts hm]
    rfl
  rw [hentries, hmessages, List.nil_append]

mutual

theorem object_shownBy (outer : String) : (node : ObjectNode) → c.objectErrors node = [] →
    (SchemaNode.object node).ShownBy (c.objectDraft outer node).descriptor
  | { head, properties, nested, entity, polymorphMember }, herrors => by
      rw [objectErrors, List.append_eq_nil_iff, List.append_eq_nil_iff] at herrors
      obtain ⟨hmessages, henums⟩ := schemas_shownBy (outer ++ "." ++ head.name) nested herrors.2
      rw [objectDraft, MessageDraft.descriptor]
      refine .object rfl (shownBy_fields herrors.1.2 _ _ _) ?_ henums
      rw [MessageDescriptor.declaredMessages, filter_declared]
      exact hmessages

theorem oneof_shownBy (outer : String) : (node : OneofNode) → c.oneofErrors node = [] →
    (SchemaNode.oneof node).ShownBy (c.oneofDraft outer node).descriptor
  | { head, properties, nested, entity }, herrors => by
      rw [oneofErrors, List.append_eq_nil_iff] at herrors
      obtain ⟨hmessages, henums⟩ := schemas_shownBy (outer ++ "." ++ head.name) nested herrors.2
      rw [oneofDraft, MessageDraft.descriptor]
      refine .oneof rfl (shownBy_fields herrors.1 _ _ _) ?_ henums
      rw [MessageDescriptor.declaredMessages, filter_declared]
      exact hmessages

/-- Schemas become messages and enums, each in the order of the schemas. -/
theorem schemas_shownBy (outer : String) : (nodes : List SchemaNode) → c.schemaErrorsList nodes = [] →
    List.Forall₂ SchemaNode.ShownBy (SchemaNode.messages nodes)
        (MessageDraft.descriptors (c.messageDrafts outer nodes)) ∧
      List.Forall₂ EnumNode.ShownBy (SchemaNode.enums nodes)
        ((enumDrafts nodes).map EnumDraft.descriptor)
  | [], _ => ⟨.nil, .nil⟩
  | .object node :: rest, herrors => by
      rw [schemaErrorsList, schemaErrors, List.append_eq_nil_iff] at herrors
      obtain ⟨hmessages, henums⟩ := schemas_shownBy outer rest herrors.2
      exact ⟨.cons (object_shownBy outer node herrors.1) hmessages, henums⟩
  | .oneof node :: rest, herrors => by
      rw [schemaErrorsList, schemaErrors, List.append_eq_nil_iff] at herrors
      obtain ⟨hmessages, henums⟩ := schemas_shownBy outer rest herrors.2
      exact ⟨.cons (oneof_shownBy outer node herrors.1) hmessages, henums⟩
  | .polymorph node :: rest, herrors => by
      rw [schemaErrorsList, List.append_eq_nil_iff] at herrors
      obtain ⟨hmessages, henums⟩ := schemas_shownBy outer rest herrors.2
      exact ⟨.cons (polymorph_shownBy node) hmessages, henums⟩
  | .enum node :: rest, herrors => by
      rw [schemaErrorsList, List.append_eq_nil_iff] at herrors
      obtain ⟨hmessages, henums⟩ := schemas_shownBy outer rest herrors.2
      exact ⟨hmessages, .cons (enum_shownBy node) henums⟩

end

theorem objects_shownBy (outer : String) {objects : List ObjectNode}
    (h : ∀ object ∈ objects, c.objectErrors object = []) :
    List.Forall₂ SchemaNode.ShownBy (objects.map .object)
      (MessageDraft.descriptors (objects.map (c.objectDraft outer))) := by
  rw [MessageDraft.descriptors_eq, List.map_map, List.forall₂_map_left_iff, List.forall₂_map_right_iff]
  exact List.forall₂_same.mpr fun object hobject => object_shownBy outer object (h object hobject)

/-! ## Services -/

theorem service_shownBy (package : String) (node : ServiceNode) :
    (ServiceSource.service node).ShownBy package (serviceDraft package node).descriptor := by
  refine .service rfl ?_
  rw [serviceDraft, ServiceDraft.descriptor, List.map_map, List.forall₂_map_right_iff]
  exact List.forall₂_same.mpr fun method _ => ⟨rfl, rfl, rfl⟩

theorem topic_shownBy (package : String) (node : TopicNode) :
    (ServiceSource.topic node).ShownBy package (topicDraft package node).descriptor := by
  refine .topic rfl ?_
  rw [topicDraft, ServiceDraft.descriptor, List.map_map, List.forall₂_map_right_iff]
  exact List.forall₂_same.mpr fun message _ => ⟨rfl, rfl⟩

end Conversion

/-! ## Files -/

namespace Document

variable {d : Document} {r : Resolver} {files : List FileDescriptor}

theorem main_shownBy (h : d.conversionErrors r = []) (imports : List String) :
    d.mainNodes.ShownBy
      { d.mainDraft (d.conversion r) (RootNode.schemas d.nodes) with imports }.descriptor := by
  obtain ⟨hmessages, henums⟩ :=
    Conversion.schemas_shownBy d.package _ (schemaErrors_of_no_errors h)
  exact ⟨rfl, rfl, hmessages, henums, .nil⟩

theorem messages_serviceNodes (d : Document) : d.serviceNodes.messages =
    ((RootNode.services d.nodes).flatMap ServiceNode.objects).map .object := by
  simp only [serviceNodes, ServiceNode.objects, List.map_flatMap, List.map_cons, List.map_nil]

theorem messages_topicNodes (d : Document) : d.topicNodes.messages =
    ((RootNode.topics d.nodes).flatMap TopicNode.objects).map .object := by
  simp only [topicNodes, TopicNode.objects, List.map_flatMap, List.map_map, Function.comp_def]

theorem serviceDraft?_shownBy (h : d.conversionErrors r = []) :
    List.Forall₂ FileNodes.ShownBy
      (if (RootNode.services d.nodes).isEmpty then [] else [d.serviceNodes])
      ((d.serviceDraft? (d.conversion r) (RootNode.services d.nodes)).toList.map
        FileDraft.descriptor) := by
  rw [serviceDraft?]
  split
  · exact .nil
  · refine .cons ⟨rfl, rfl, ?_, .nil, ?_⟩ .nil
    · rw [messages_serviceNodes]
      exact Conversion.objects_shownBy d.servicePackage
        fun object hobject => (service_objects h object hobject).2.1
    · rw [serviceNodes, FileDraft.descriptor, List.map_map, List.forall₂_map_left_iff,
        List.forall₂_map_right_iff]
      exact List.forall₂_same.mpr fun node _ => Conversion.service_shownBy _ node

theorem topicDraft?_shownBy (h : d.conversionErrors r = []) :
    List.Forall₂ FileNodes.ShownBy
      (if (RootNode.topics d.nodes).isEmpty then [] else [d.topicNodes])
      ((d.topicDraft? (d.conversion r) (RootNode.topics d.nodes)).toList.map
        FileDraft.descriptor) := by
  rw [topicDraft?]
  split
  · exact .nil
  · refine .cons ⟨rfl, rfl, ?_, .nil, ?_⟩ .nil
    · rw [messages_topicNodes]
      exact Conversion.objects_shownBy d.topicPackage
        fun object hobject => (topic_objects h object hobject).2.1
    · rw [topicNodes, FileDraft.descriptor, List.map_map, List.forall₂_map_left_iff,
        List.forall₂_map_right_iff]
      exact List.forall₂_same.mpr fun node _ => Conversion.topic_shownBy _ node

/-- The files of a document stand for its nodes, each node once and in its place. -/
theorem convert_shows (h : d.convert r = .ok files) :
    List.Forall₂ FileNodes.ShownBy d.fileNodes files := by
  obtain ⟨hnone, rfl⟩ := convert_eq_ok h
  rw [fileNodes, drafts, List.map_cons, List.map_append]
  exact .cons (main_shownBy hnone _)
    (List.rel_append (serviceDraft?_shownBy hnone) (topicDraft?_shownBy hnone))

/-- An archive keeps papers in boxes by their titles.  It can be asked for a box and tells when one is
opened. -/
def archive : Document where
  path := "a/v1/a.j5s"
  package := "a.v1"
  elements :=
    [.object
      { name := "Box"
        description := some "A box."
        schemas := [.enum { name := "Size", options :=
          [{ name := "SMALL", description := some " Fits\na shelf. " }, { name := "LARGE" }] }]
        properties :=
          [{ name := "papersByTitle", schema := .map (.object (.inline paper) false) {} },
           { name := "size", description := some "How large."
             schema := .enum (.named ⟨none, "Box.Size"⟩) {} none }] },
     .polymorph { name := "Item", description := some "  ", members := ["a.v1.Box"] },
     .service
      { name := some "Archive"
        methods := [{ name := "Open", description := some "Opens a box."
                      request := [{ name := "title", schema := .string {} }] }] },
     .topic
      { name := "Archive"
        description := some "News."
        kind := .publish [{ name := "Opened", properties :=
          [{ name := "box", description := some "The box."
             schema := .object (.named ⟨none, "Box"⟩) false }] }] }]
where
  paper : ObjectDecl :=
    { name := "Paper"
      description := some "A paper."
      properties := [{ name := "pages", schema := .integer {} }] }

theorem archive_convert : ∃ files, archive.convert (TypeTable.resolve {}) = .ok files :=
  exists_convert (by decide +kernel)

theorem convert_shows_archive : ∃ files, archive.convert (TypeTable.resolve {}) = .ok files ∧
    List.Forall₂ FileNodes.ShownBy archive.fileNodes files ∧
    archive.fileNodes.map (fun nodes => (nodes.package, nodes.messages.map SchemaNode.nameInPackage)) =
      [("a.v1", ["Box", "Item"]), ("a.v1.service", ["OpenRequest", "OpenResponse"]),
        ("a.v1.topic", ["OpenedMessage"])] ∧
    files.map (fun f => f.messages.map fun m => m.declaredMessages.map MessageDescriptor.nameText) =
      [[["Paper"], []], [[], []], [[]]] := by
  obtain ⟨files, hconvert⟩ := archive_convert
  have hshows := convert_shows hconvert
  obtain ⟨-, rfl⟩ := convert_eq_ok hconvert
  exact ⟨_, hconvert, hshows, by decide +kernel, by decide +kernel⟩

end Document
end Schematic
