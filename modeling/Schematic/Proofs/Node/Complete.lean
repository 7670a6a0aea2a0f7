import Schematic.Proofs.Node.Reference

/-!
# Entities, complete and closed

An entity becomes its parts in a fixed order.  Its event type has a branch per event, which refers to
the object that bears the properties of the event, and its queries ask for its keys.  A reference that
the author did not write names a well-known type, or a schema among the parts of the kind that the
field asks for.
-/

namespace Schematic

/-! ## Order -/

/-- A schema declared outside of any other. -/
def Declaration.label : Declaration → NodeLabel
  | .object decl => ⟨.object, decl.name⟩
  | .oneof decl => ⟨.oneof, decl.name⟩
  | .enum decl => ⟨.enum, decl.name⟩
  | .polymorph decl => ⟨.polymorph, decl.name⟩

/-- The parts of an entity in turn. -/
def EntityDecl.partLabels (decl : EntityDecl) : List NodeLabel :=
  let names := Entity.Names.ofDecl decl.name
  [⟨.object, names.schema "Keys"⟩, ⟨.object, names.schema "Data"⟩, ⟨.enum, names.schema "Status"⟩,
      ⟨.object, names.schema "State"⟩, ⟨.oneof, names.schema "EventType"⟩,
      ⟨.object, names.schema "Event"⟩, ⟨.service, names.schema "Query"⟩] ++
    decl.commands.map (fun group =>
      ⟨.service, (Build.nonBlank? group.name).getD (names.schema "Command")⟩) ++
    [⟨.topic, names.schema "Publish"⟩] ++ decl.summaries.map (fun summary => ⟨.topic, summary.name⟩) ++
    decl.schemas.map Declaration.label

theorem Head.nameInPackage_of_childNest {head : Head} {name : String} (h : head.childNest = [name]) :
    head.nameInPackage = name :=
  congrArg (Text.join ".") h

theorem exists_ok_of_map {α β ε : Type} {x : Except ε α} {f : α → β} {b : β}
    (h : x.toOption.map f = some b) : ∃ a, x = .ok a ∧ f a = b := by
  cases x with
  | error e => cases h
  | ok a => exact ⟨a, rfl, Option.some.inj h⟩

theorem map_eq_of_mapM {α β γ ε : Type} {f : α → Except ε β} {g : β → γ} {k : α → γ}
    (hf : ∀ a b, f a = .ok b → g b = k a) {l : List α} {bs : List β} (h : l.mapM f = .ok bs) :
    bs.map g = l.map k := by
  induction l generalizing bs with
  | nil =>
      cases h
      rfl
  | cons a rest ih =>
      rw [List.mapM_cons] at h
      obtain ⟨b, hb, h⟩ := bind_eq_ok h
      obtain ⟨others, hothers, h⟩ := bind_eq_ok h
      cases h
      rw [List.map_cons, List.map_cons, hf a b hb, ih hothers]

namespace Build

variable {file : String}

theorem declaration_label {decl : Declaration} {node : SchemaNode}
    (h : declaration file [] decl = .ok node) : node.label = decl.label := by
  cases decl with
  | object decl =>
      rw [declaration] at h
      obtain ⟨node, hnode, h⟩ := bind_eq_ok h
      cases h
      exact congrArg (NodeLabel.mk .object) (Head.nameInPackage_of_childNest (object_childNest hnode))
  | oneof decl =>
      rw [declaration] at h
      obtain ⟨node, hnode, h⟩ := bind_eq_ok h
      cases h
      exact congrArg (NodeLabel.mk .oneof) (Head.nameInPackage_of_childNest (oneof_childNest hnode))
  | enum decl =>
      rw [declaration] at h
      obtain ⟨node, hnode, h⟩ := bind_eq_ok h
      cases h
      exact congrArg (NodeLabel.mk .enum) (Head.nameInPackage_of_childNest (enum_childNest hnode))
  | polymorph decl =>
      rw [declaration] at h
      obtain ⟨node, hnode, h⟩ := bind_eq_ok h
      cases h
      exact congrArg (NodeLabel.mk .polymorph)
        (Head.nameInPackage_of_childNest (polymorph_childNest hnode))

theorem declarations_labels {decls : List Declaration} {nodes : List SchemaNode}
    (h : declarations file [] decls = .ok nodes) :
    nodes.map SchemaNode.label = decls.map Declaration.label := by
  induction decls generalizing nodes with
  | nil =>
      rw [declarations] at h
      cases h
      rfl
  | cons decl rest ih =>
      rw [declarations] at h
      obtain ⟨node, hnode, h⟩ := bind_eq_ok h
      obtain ⟨others, hothers, h⟩ := bind_eq_ok h
      cases h
      rw [List.map_cons, List.map_cons, declaration_label hnode, ih hothers]

theorem payload_nodes {name : String} {span : Span} {props : List PropertyDecl} {node : ObjectNode}
    (h : payload file name span props = .ok node) : node.head.childNest = [name] ∧
      node.properties = PropertyDecl.nodesFrom node.head.childNest 1 props := by
  obtain ⟨⟨nodes, hoisted⟩, hprops, h⟩ := bind_eq_ok h
  cases h
  exact ⟨rfl, (properties_nodes hprops).1⟩

theorem object_nodes {nest : List String} {name : String} {decl : ObjectDecl} {node : ObjectNode}
    (h : object file nest name decl = .ok node) : node.head.nest = nest ∧ node.head.name = name ∧
      node.properties = PropertyDecl.nodesFrom node.head.childNest 1 decl.properties := by
  cases decl
  rw [object] at h
  obtain ⟨_, -, h⟩ := bind_eq_ok h
  obtain ⟨declared, -, h⟩ := bind_eq_ok h
  obtain ⟨⟨nodes, hoisted⟩, hprops, h⟩ := bind_eq_ok h
  cases h
  exact ⟨rfl, rfl, (properties_nodes hprops).1⟩

end Build

namespace Entity

variable {file : String} {decl : EntityDecl} {names : Names}

theorem declaredPart_label {ending : String} {part : EntityPart} {properties : List PropertyDecl}
    {node : ObjectNode} (h : declaredPart file decl names ending part properties = .ok node) :
    (SchemaNode.object node).label = ⟨.object, names.schema ending⟩ := by
  obtain ⟨built, hbuilt, h⟩ := bind_eq_ok h
  cases h
  exact congrArg (NodeLabel.mk .object)
    (Head.nameInPackage_of_childNest (Build.object_childNest hbuilt))

theorem keys_label {node : ObjectNode} (h : keys file decl names = .ok node) :
    (SchemaNode.object node).label = ⟨.object, names.schema "Keys"⟩ :=
  declaredPart_label h

theorem data_label {node : ObjectNode} (h : data file decl names = .ok node) :
    (SchemaNode.object node).label = ⟨.object, names.schema "Data"⟩ :=
  declaredPart_label h

theorem status_label {node : EnumNode} (h : status file decl names = .ok node) :
    (SchemaNode.enum node).label = ⟨.enum, names.schema "Status"⟩ := by
  obtain ⟨built, hbuilt, h⟩ := bind_eq_ok h
  cases h
  exact congrArg (NodeLabel.mk .enum)
    (Head.nameInPackage_of_childNest (Build.enum_childNest hbuilt))

theorem generatedPart_label {ending : String} {part : EntityPart} {description : Option String}
    {properties : List PropertyDecl} {node : ObjectNode}
    (h : generatedPart file decl names ending part description properties = .ok node) :
    (SchemaNode.object node).label = ⟨.object, names.schema ending⟩ := by
  obtain ⟨built, hbuilt, h⟩ := bind_eq_ok h
  cases h
  exact congrArg (NodeLabel.mk .object)
    (Head.nameInPackage_of_childNest (Build.payload_nodes hbuilt).1)

theorem state_label {filters : List String} {node : ObjectNode}
    (h : state file decl names filters = .ok node) :
    (SchemaNode.object node).label = ⟨.object, names.schema "State"⟩ :=
  generatedPart_label h

theorem eventType_childNest {node : OneofNode} (h : eventType file decl names = .ok node) :
    node.head.childNest = [names.schema "EventType"] := by
  obtain ⟨parts, -, h⟩ := bind_eq_ok h
  obtain ⟨_, -, h⟩ := bind_eq_ok h
  cases h
  rfl

theorem eventType_label {node : OneofNode} (h : eventType file decl names = .ok node) :
    (SchemaNode.oneof node).label = ⟨.oneof, names.schema "EventType"⟩ :=
  congrArg (NodeLabel.mk .oneof) (Head.nameInPackage_of_childNest (eventType_childNest h))

theorem event_label {node : ObjectNode} (h : event file decl names = .ok node) :
    (SchemaNode.object node).label = ⟨.object, names.schema "Event"⟩ :=
  generatedPart_label h

theorem queryService_label {node : ServiceNode} (h : queryService file decl names = .ok node) :
    (RootNode.service node).label = ⟨.service, names.schema "Query"⟩ := by
  obtain ⟨_, -, h⟩ := bind_eq_ok h
  obtain ⟨_, -, h⟩ := bind_eq_ok h
  obtain ⟨_, -, h⟩ := bind_eq_ok h
  cases h
  rfl

theorem commandService_label (group : CommandGroup) (node : ServiceNode)
    (h : commandService file decl names group = .ok node) : (RootNode.service node).label =
      ⟨.service, (Build.nonBlank? group.name).getD (names.schema "Command")⟩ := by
  obtain ⟨_, -, h⟩ := bind_eq_ok h
  cases h
  rfl

theorem publishTopic_label {node : TopicNode} (h : publishTopic file decl names = .ok node) :
    (RootNode.topic node).label = ⟨.topic, names.schema "Publish"⟩ := by
  obtain ⟨_, -, h⟩ := bind_eq_ok h
  cases h
  rfl

theorem summaryTopic_label (summary : SummaryDecl) (node : TopicNode)
    (h : summaryTopic file names summary = .ok node) :
    (RootNode.topic node).label = ⟨.topic, summary.name⟩ := by
  obtain ⟨_, -, h⟩ := bind_eq_ok h
  cases h
  rfl

theorem Expansion.roots_labels (e : Expansion file decl) :
    e.roots.map RootNode.label = decl.partLabels := by
  have hcommands := map_eq_of_mapM commandService_label e.commands_eq
  have hsummaries := map_eq_of_mapM summaryTopic_label e.summaries_eq
  have hschemas := Build.declarations_labels e.schemas_eq
  simp only [roots, List.map_append, List.map_map, List.map_cons, List.map_nil]
  have hservice : RootNode.label ∘ RootNode.service = fun node => (RootNode.service node).label := rfl
  have htopic : RootNode.label ∘ RootNode.topic = fun node => (RootNode.topic node).label := rfl
  have hschema : RootNode.label ∘ RootNode.schema = SchemaNode.label := rfl
  rw [hservice, htopic, hschema, hcommands, hsummaries, hschemas, queryService_label e.query_eq,
    publishTopic_label e.publish_eq]
  simp only [RootNode.label, keys_label e.keys_eq, data_label e.data_eq, status_label e.status_eq,
    state_label e.state_eq, eventType_label e.eventType_eq, event_label e.event_eq]
  rfl

end Entity

/-! ## Events -/

/-- The object of an event in the oneof that `nest` leads to. -/
def EventDecl.HeldBy (nest : List String) (event : EventDecl) (child : SchemaNode) : Prop :=
  ∃ object, child = .object object ∧ object.head.nest = nest ∧
    object.head.name = Case.upperCamel event.name ∧
    object.properties = PropertyDecl.nodesFrom object.head.childNest 1 event.properties

/-- The branch at a place of a oneof refers to a schema in the oneof. -/
structure PropertyNode.BranchTo (child : SchemaNode) (number : Int) (n : PropertyNode) : Prop where
  name : n.name = Case.lowerCamel child.head.name
  number : n.number = number
  field : n.field = .object { schema := child.nameInPackage } false

/-- A branch per event, numbered by its place, which refers to the object of the event. -/
structure OneofNode.BranchesPer (events : List EventDecl) (node : OneofNode) : Prop where
  objects : List.Forall₂ (EventDecl.HeldBy node.head.childNest) events node.nested
  distinct : (node.nested.map fun child => child.head.name).Nodup
  branches : List.Forall₂ (fun x n => PropertyNode.BranchTo x.1 (x.2 : Nat) n) (node.nested.zipIdx 1)
    node.properties

theorem exists_of_forall₂_left {α β : Type} {R : α → β → Prop} {as : List α} {bs : List β}
    (h : List.Forall₂ R as bs) {a : α} (ha : a ∈ as) : ∃ b ∈ bs, R a b := by
  induction h with
  | nil => cases ha
  | cons hab _ ih =>
      rcases List.mem_cons.mp ha with rfl | ha
      · exact ⟨_, List.mem_cons_self, hab⟩
      · obtain ⟨b, hb, hr⟩ := ih ha
        exact ⟨b, List.mem_cons_of_mem _ hb, hr⟩

theorem forall₂_map_eq {α β γ : Type} {R : α → β → Prop} {f : α → γ} {g : β → γ} {as : List α}
    {bs : List β} (h : List.Forall₂ R as bs) (hR : ∀ a b, R a b → f a = g b) : as.map f = bs.map g := by
  induction h with
  | nil => rfl
  | cons hab _ ih => rw [List.map_cons, List.map_cons, hR _ _ hab, ih]

/-- Members of lists that agree in turn, known to be members. -/
theorem forall₂_of_mem {α β : Type} {R S : α → β → Prop} {as : List α} {bs : List β}
    (h : List.Forall₂ R as bs) (hS : ∀ a ∈ as, ∀ b ∈ bs, R a b → S a b) : List.Forall₂ S as bs := by
  induction h with
  | nil => exact .nil
  | cons hab _ ih =>
      refine .cons (hS _ List.mem_cons_self _ List.mem_cons_self hab) (ih fun a ha b hb => ?_)
      exact hS a (List.mem_cons_of_mem _ ha) b (List.mem_cons_of_mem _ hb)

/-- Branches under different names refer to schemas of different names. -/
theorem distinct_of_branches {children : List SchemaNode} {place : Nat} {nodes : List PropertyNode}
    (h : List.Forall₂ (fun x n => PropertyNode.BranchTo x.1 (Int32.ofNat x.2).toInt n)
      (children.zipIdx place) nodes)
    (hdistinct : (nodes.map PropertyNode.name).Nodup) :
    (children.map fun child => child.head.name).Nodup := by
  have hnames := forall₂_map_eq h fun _ _ hbranch => hbranch.name.symm
  have hchildren := congrArg (List.map fun child => child.head.name) (List.zipIdx_map_fst place children)
  rw [List.map_map] at hchildren
  rw [← hchildren]
  refine List.Nodup.of_map Case.lowerCamel ?_
  rw [List.map_map]
  exact hnames ▸ hdistinct

/-- Places from 1 on that are positive as 32-bit numbers are these numbers. -/
theorem toInt_ofNat_of_positive {α : Type} {l : List α}
    (h : ∀ x ∈ l.zipIdx 1, 1 ≤ (Int32.ofNat x.2).toInt) {x : α × Nat} (hx : x ∈ l.zipIdx 1) :
    (Int32.ofNat x.2).toInt = x.2 := by
  have hlength : l.length < Nat.pow 2 31 := by
    by_contra hlong
    -- The place where the numbers turn negative would be among them.
    have hturn : Nat.pow 2 31 - 1 < l.length := by
      have : 0 < Nat.pow 2 31 := by decide
      omega
    have hmem : (l[Nat.pow 2 31 - 1], Nat.pow 2 31) ∈ l.zipIdx 1 := by
      rw [List.mk_mem_zipIdx_iff_le_and_getElem?_sub]
      exact ⟨by decide, List.getElem?_eq_getElem hturn⟩
    have hnegative : (Int32.ofNat (Nat.pow 2 31)).toInt < 1 := by decide
    exact absurd (h _ hmem) (Int.not_le.mpr hnegative)
  obtain ⟨-, hlt, -⟩ := List.mem_zipIdx hx
  refine Int32.toInt_ofNat_of_lt ?_
  have : Nat.pow 2 31 = 2147483648 := rfl
  omega

namespace Entity

variable {file : String} {decl : EntityDecl} {names : Names}

/-- The objects of events, and the branches that refer to them. -/
theorem branches_nodes {nest : List String} (path : List String) {place : Nat} {events : List EventDecl}
    {parts : List (ObjectNode × PropertyDecl)} (h : branches file nest place events = .ok parts) :
    List.Forall₂ (EventDecl.HeldBy nest) events (parts.map fun part => SchemaNode.object part.1) ∧
      List.Forall₂ (fun x n => PropertyNode.BranchTo x.1 (Int32.ofNat x.2).toInt n)
        ((parts.map fun part => SchemaNode.object part.1).zipIdx place)
        (PropertyDecl.nodesFrom path place (parts.map Prod.snd)) := by
  induction events generalizing place parts with
  | nil =>
      cases h
      exact ⟨.nil, .nil⟩
  | cons event rest ih =>
      rw [branches] at h
      obtain ⟨node, hnode, h⟩ := bind_eq_ok h
      obtain ⟨others, hothers, h⟩ := bind_eq_ok h
      cases h
      obtain ⟨hobjects, hbranches⟩ := ih hothers
      obtain ⟨hnest, hname, hproperties⟩ := Build.object_nodes hnode
      refine ⟨.cons ⟨node, rfl, hnest, hname, hproperties⟩ hobjects, .cons ⟨?_, rfl, rfl⟩ hbranches⟩
      exact congrArg Case.lowerCamel hname.symm

theorem inline?_branch (path nest : List String) (events : List (EventDecl × Nat)) :
    (events.map fun x => Owner.branch nest x.2 x.1).filterMap
      (fun p => p.schema.inline? path p.name) = [] := by
  rw [List.filterMap_map]
  exact List.filterMap_eq_nil_iff.mpr fun _ _ => rfl

theorem eventType_branchesPer {node : OneofNode} (h : eventType file decl names = .ok node) :
    node.BranchesPer decl.events := by
  obtain ⟨parts, hparts, h⟩ := bind_eq_ok h
  obtain ⟨⟨props, hoisted⟩, hprops, h⟩ := bind_eq_ok h
  cases h
  obtain ⟨hprops_eq, hlabels⟩ := Build.properties_nodes hprops
  -- Branches name their objects, so that nothing is declared in their place.
  have hhoisted : hoisted = [] := by
    rw [(branches_built hparts).2, inline?_branch] at hlabels
    exact List.map_eq_nil_iff.mp hlabels
  have hnumbered := Build.properties_numbered hprops
  subst hprops_eq hhoisted
  obtain ⟨hobjects, hbranches⟩ :=
    branches_nodes (Head.childNest { name := names.schema "EventType", file, span := decl.span }) hparts
  rw [List.append_nil]
  refine ⟨hobjects, ?_, forall₂_of_mem hbranches fun x hx n _ hbranch => ?_⟩
  · exact distinct_of_branches hbranches hnumbered.distinctNames
  · have hpositive : ∀ x ∈ (parts.map fun part => SchemaNode.object part.1).zipIdx 1,
        1 ≤ (Int32.ofNat x.2).toInt := by
      intro x hx
      obtain ⟨n, hn, hbranch⟩ := exists_of_forall₂_left hbranches hx
      rw [← hbranch.number]
      exact hnumbered.positive n hn
    exact ⟨hbranch.name, hbranch.number.trans (toInt_ofNat_of_positive hpositive hx), hbranch.field⟩

end Entity

/-! ## Queries -/

def PropertyDecl.isPrimaryKey (p : PropertyDecl) : Bool :=
  p.entityKey.any fun key => key.primary

def PropertyDecl.isShardKey (p : PropertyDecl) : Bool :=
  p.entityKey.any fun key => key.shard && !key.primary

/-- Keys at the head of a request: required, numbered by their places, and else as declared. -/
def PropertyDecl.keyNodes (path : List String) (keys : List PropertyDecl) : List PropertyNode :=
  (keys.zipIdx 1).map fun x =>
    { x.1.nodeAt path x.2 with number := x.2, required := true, optional := false }

theorem PropertyDecl.nodesFrom_requestKey (path : List String) (keys : List PropertyDecl) :
    nodesFrom path 1 (keys.map Entity.requestKey) = keyNodes path keys := by
  rw [nodesFrom, List.zipIdx_map, List.map_map]
  rfl

/-- A method whose request starts with exactly the keys given. -/
structure MethodNode.Asks (m : MethodNode) (name : String) (keys : List PropertyDecl)
    (others : List String) : Prop where
  named : m.name = name
  placed : m.request.head.childNest = [name ++ "Request"]
  first : m.request.properties.take keys.length = PropertyDecl.keyNodes m.request.head.childNest keys
  rest : (m.request.properties.drop keys.length).map PropertyNode.name = others

/-- The queries of an entity, each with the keys it asks for. -/
def ServiceNode.Queries (decl : EntityDecl) (service : ServiceNode) : Prop :=
  let names := Entity.Names.ofDecl decl.name
  ∃ get list events, service.methods = [get, list, events] ∧
    get.Asks (names.schema "Get") (decl.keys.filter PropertyDecl.isPrimaryKey) [] ∧
    list.Asks (names.schema "List") (decl.keys.filter PropertyDecl.isShardKey) ["page", "query"] ∧
    events.Asks (names.schema "Events") (decl.keys.filter PropertyDecl.isPrimaryKey) ["page", "query"]

namespace Entity

variable {file : String} {decl : EntityDecl}

theorem queryMethod_asks {span : Span} {name path : String} {kind : QueryKind}
    {keys others response : List PropertyDecl} {node : MethodNode}
    (h : queryMethod file span name path kind (keys.map requestKey ++ others) response = .ok node) :
    node.Asks name keys (others.map PropertyDecl.name) := by
  obtain ⟨request, hrequest, h⟩ := bind_eq_ok h
  obtain ⟨response, -, h⟩ := bind_eq_ok h
  cases h
  obtain ⟨hpath, hproperties⟩ := Build.payload_nodes hrequest
  rw [PropertyDecl.nodesFrom_append, PropertyDecl.nodesFrom_requestKey] at hproperties
  have hlength : (PropertyDecl.keyNodes request.head.childNest keys).length = keys.length := by
    rw [PropertyDecl.keyNodes, List.length_map, List.length_zipIdx]
  refine ⟨rfl, hpath, ?_, ?_⟩
  · rw [hproperties]
    exact List.take_left' hlength
  · rw [hproperties, List.drop_left' hlength, PropertyDecl.nodesFrom, List.map_map]
    have hnames := congrArg (List.map PropertyDecl.name)
      (List.zipIdx_map_fst (1 + (keys.map requestKey).length) others)
    rw [List.map_map] at hnames
    exact hnames

theorem queryService_queries {node : ServiceNode}
    (h : queryService file decl (.ofDecl decl.name) = .ok node) : node.Queries decl := by
  obtain ⟨get, hget, h⟩ := bind_eq_ok h
  obtain ⟨list, hlist, h⟩ := bind_eq_ok h
  obtain ⟨events, hevents, h⟩ := bind_eq_ok h
  cases h
  rw [← List.append_nil (primaryKeys decl)] at hget
  exact ⟨get, list, events, rfl, queryMethod_asks hget, queryMethod_asks hlist,
    queryMethod_asks hevents⟩

end Entity

/-! ## References -/

/-- A reference that needs no author: to a well-known type, or to a schema of its kind among those
given. -/
def RefName.Closed (labels : List NodeLabel) (kind : NodeKind) (target : RefName) : Prop :=
  (kind = .object ∧ target ∈ WellKnown.names) ∨ (target.package = none ∧ ⟨kind, target.schema⟩ ∈ labels)

/-- What a message refers to is named by the properties declared for it, or needs no author. -/
structure Owner.ClosedIn (labels : List NodeLabel) (o : Owner) (h : Holder) : Prop where
  path : h.path = o.path
  references : ∀ n ∈ h.properties, ∀ kind target, n.field.reference? = some (kind, target) →
    (∃ p ∈ o.properties, p.name = n.name ∧ p.schema.named? = some (kind, target)) ∨
      target.Closed labels kind

def PropertyDecl.ClosedIn (labels : List NodeLabel) (p : PropertyDecl) : Prop :=
  ∀ kind target, p.schema.named? = some (kind, target) → target.Closed labels kind

/-- An owner that leaves out no property but such as need no author. -/
structure Owner.Authors (labels : List NodeLabel) (o full : Owner) : Prop where
  path : o.path = full.path
  properties : ∀ p ∈ full.properties, p ∈ o.properties ∨ p.ClosedIn labels

theorem PropertyDecl.closedIn_of_named {labels : List NodeLabel} {p : PropertyDecl} {kind : NodeKind}
    {target : RefName} (h : p.schema.named? = some (kind, target)) (hclosed : target.Closed labels kind) :
    p.ClosedIn labels := by
  intro kind' target' h'
  cases h.symm.trans h'
  exact hclosed

theorem PropertyDecl.ownersList_append (nest : List String) (ps others : List PropertyDecl) :
    ownersList nest (ps ++ others) = ownersList nest ps ++ ownersList nest others := by
  induction ps with
  | nil => rfl
  | cons p rest ih => rw [List.cons_append, ownersList, ownersList, ih, List.append_assoc]

namespace Owner

variable {labels : List NodeLabel}

theorem authors_refl (os : List Owner) : List.Forall₂ (Authors labels) os os :=
  List.forall₂_same.mpr fun _ _ => ⟨rfl, fun _ hp => .inl hp⟩

theorem authors_plain {nest : List String} {name : String} {ps full : List PropertyDecl}
    (h : ∀ p ∈ full, p ∈ ps ∨ p.ClosedIn labels)
    (howners : PropertyDecl.ownersList (nest ++ [name]) full =
      PropertyDecl.ownersList (nest ++ [name]) ps) :
    List.Forall₂ (Authors labels) (plain nest name ps) (plain nest name full) := by
  rw [plain, plain, howners]
  exact .cons ⟨rfl, h⟩ (authors_refl _)

theorem BuiltInto.closedIn {o full : Owner} {h : Holder} (hbuilt : full.BuiltInto h)
    (ho : o.Authors labels full) (hnested : ∀ child ∈ h.nested, child.label ∈ labels) :
    o.ClosedIn labels h := by
  refine ⟨hbuilt.path.trans ho.path.symm, fun n hn kind target href => ?_⟩
  rw [hbuilt.nodes] at hn
  obtain ⟨p, hp, hname, hfield⟩ := PropertyDecl.exists_of_mem_nodesFrom hn
  rw [hfield] at href
  rcases FieldSchema.reference?_node href with hnamed | ⟨name, hinline, rfl⟩
  · rcases ho.properties p hp with hp | hclosed
    · exact .inl ⟨p, hp, hname.symm, hnamed⟩
    · exact .inr (hclosed kind target hnamed)
  · obtain ⟨child, hchild, hlabel⟩ := hbuilt.exists_inline hp hinline
    exact .inr (.inr ⟨rfl, hlabel ▸ hnested child hchild⟩)

theorem AllBuilt.closedIn {os full : List Owner} {nodes all : List SchemaNode}
    (hbuilt : AllBuilt full nodes)
    (hos : List.Forall₂ (Authors (SchemaNode.labels all)) os full) (hsub : nodes ⊆ all) :
    List.Forall₂ (ClosedIn (SchemaNode.labels all)) os (SchemaNode.holdersList nodes) := by
  have hheld := forall₂_of_mem (S := fun o h => o.BuiltInto h ∧ h ∈ SchemaNode.holdersList nodes) hbuilt
    fun _ _ _ hh hb => ⟨hb, hh⟩
  refine forall₂_compose (fun o full h ho hb => hb.1.closedIn ho fun child hchild => ?_) hos hheld
  exact SchemaNode.labels_subset hsub (SchemaNode.label_mem_labels_of_holder hb.2 hchild)

end Owner

/-! ## Parts that refer to parts -/

/-- The schemas among nodes: those in the main file, and those of services and topics. -/
def RootNode.allSchemas (roots : List RootNode) : List SchemaNode :=
  schemas roots ++ (serviceSchemas roots ++ topicSchemas roots)

theorem RootNode.label_mem_labels {roots : List RootNode} {kind : NodeKind} {name : String}
    (h : ⟨kind, name⟩ ∈ roots.map RootNode.label) (hservice : kind ≠ .service)
    (htopic : kind ≠ .topic) : ⟨kind, name⟩ ∈ SchemaNode.labels (allSchemas roots) := by
  obtain ⟨root, hroot, hlabel⟩ := List.mem_map.mp h
  cases root with
  | schema node =>
      rw [← hlabel]
      refine SchemaNode.label_mem_labels (List.mem_append_left _ ?_)
      exact List.mem_filterMap.mpr ⟨.schema node, hroot, rfl⟩
  | service node => exact absurd (congrArg NodeLabel.kind hlabel).symm hservice
  | topic node => exact absurd (congrArg NodeLabel.kind hlabel).symm htopic

theorem OneofNode.holder_mem_holders (node : OneofNode) :
    ⟨node.head.childNest, node.properties, node.nested⟩ ∈ node.holders := by
  cases node
  rw [holders]
  exact List.mem_cons_self

namespace Owner

open Entity

/-- The schemas of an entity, with the properties that its author declares. -/
def authoredSchemas (decl : EntityDecl) (names : Names) : List Owner :=
  plain [] (names.schema "Keys") decl.keys ++ (plain [] (names.schema "Data") decl.data ++
    (plain [] (names.schema "State") [] ++
      ((⟨[names.schema "EventType"], []⟩ :: decl.events.flatMap fun event =>
        plain [names.schema "EventType"] (Case.upperCamel event.name) event.properties) ++
        (plain [] (names.schema "Event") [] ++ Declaration.ownersList [] decl.schemas))))

/-- Requests and responses of an entity.  The keys in a request are those that are declared. -/
def authoredServices (decl : EntityDecl) (names : Names) : List Owner :=
  plain [] (names.schema "Get" ++ "Request") (primaryKeys decl) ++
    plain [] (names.schema "Get" ++ "Response") [] ++
    (plain [] (names.schema "List" ++ "Request") (shardKeys decl) ++
      plain [] (names.schema "List" ++ "Response") [] ++
      (plain [] (names.schema "Events" ++ "Request") (primaryKeys decl) ++
        plain [] (names.schema "Events" ++ "Response") [])) ++
    decl.commands.flatMap fun group => group.methods.flatMap ofMethod

def authoredTopics (decl : EntityDecl) (names : Names) : List Owner :=
  plain [] (names.schema "Event" ++ "Message") [] ++
    decl.summaries.flatMap fun summary => plain [] (summary.name ++ "Message") summary.properties

end Owner

namespace Entity

/-- The schemas that generated properties refer to, among those given. -/
structure Named (labels : List NodeLabel) (decl : EntityDecl) (names : Names) : Prop where
  keys : ⟨.object, names.schema "Keys"⟩ ∈ labels
  data : ⟨.object, names.schema "Data"⟩ ∈ labels
  status : ⟨.enum, names.schema "Status"⟩ ∈ labels
  state : ⟨.object, names.schema "State"⟩ ∈ labels
  eventType : ⟨.oneof, names.schema "EventType"⟩ ∈ labels
  event : ⟨.object, names.schema "Event"⟩ ∈ labels
  events : ∀ event ∈ decl.events,
    ⟨.object, Text.join "." [names.schema "EventType", Case.upperCamel event.name]⟩ ∈ labels

section Closed

variable {labels : List NodeLabel} {decl : EntityDecl} {names : Names}

theorem closedIn_wellKnown {p : PropertyDecl} {target : RefName}
    (h : p.schema.named? = some (.object, target)) (hmem : target ∈ WellKnown.names) :
    p.ClosedIn labels :=
  PropertyDecl.closedIn_of_named h (.inl ⟨rfl, hmem⟩)

theorem closedIn_part {p : PropertyDecl} {kind : NodeKind} {name : String}
    (h : p.schema.named? = some (kind, { schema := name })) (hmem : ⟨kind, name⟩ ∈ labels) :
    p.ClosedIn labels :=
  PropertyDecl.closedIn_of_named h (.inr ⟨rfl, hmem⟩)

theorem closed_nil : ∀ p ∈ ([] : List PropertyDecl), p.ClosedIn labels :=
  List.forall_mem_nil _

theorem closed_cons {p : PropertyDecl} {ps : List PropertyDecl} (h : p.ClosedIn labels)
    (hps : ∀ q ∈ ps, q.ClosedIn labels) : ∀ q ∈ p :: ps, q.ClosedIn labels :=
  List.forall_mem_cons.mpr ⟨h, hps⟩

theorem stateProperties_closed (h : Named labels decl names) (filters : List String) :
    ∀ p ∈ stateProperties names filters, p.ClosedIn labels :=
  closed_cons (closedIn_wellKnown rfl (by decide)) (closed_cons (closedIn_part rfl h.keys)
    (closed_cons (closedIn_part rfl h.data) (closed_cons (closedIn_part rfl h.status) closed_nil)))

theorem eventProperties_closed (h : Named labels decl names) :
    ∀ p ∈ eventProperties names, p.ClosedIn labels :=
  closed_cons (closedIn_wellKnown rfl (by decide)) (closed_cons (closedIn_part rfl h.keys)
    (closed_cons (closedIn_part rfl h.eventType) closed_nil))

theorem publishProperties_closed (h : Named labels decl names) :
    ∀ p ∈ publishProperties names, p.ClosedIn labels :=
  closed_cons (closedIn_wellKnown rfl (by decide)) (closed_cons (closedIn_part rfl h.keys)
    (closed_cons (closedIn_part rfl h.eventType) (closed_cons (closedIn_part rfl h.data)
      (closed_cons (closedIn_part rfl h.status) closed_nil))))

theorem branches_closed (h : Named labels decl names) : ∀ p ∈ (decl.events.zipIdx 1).map fun x =>
    Owner.branch [names.schema "EventType"] x.2 x.1, p.ClosedIn labels := by
  intro p hp
  obtain ⟨x, hx, rfl⟩ := List.mem_map.mp hp
  exact closedIn_part rfl (h.events x.1 (List.fst_mem_of_mem_zipIdx hx))

theorem pageAndQuery_closed : ∀ p ∈ pageAndQuery, p.ClosedIn labels :=
  closed_cons (closedIn_wellKnown rfl (by decide))
    (closed_cons (closedIn_wellKnown rfl (by decide)) closed_nil)

theorem getResponse_closed (h : Named labels decl names) :
    ∀ p ∈ getResponse decl names, p.ClosedIn labels := by
  refine closed_cons (closedIn_part rfl h.state) ?_
  split
  · exact closed_cons (closedIn_part rfl h.event) closed_nil
  · exact closed_nil

theorem listResponse_closed (h : Named labels decl names) :
    ∀ p ∈ listResponse names, p.ClosedIn labels :=
  closed_cons (closedIn_part rfl h.state)
    (closed_cons (closedIn_wellKnown rfl (by decide)) closed_nil)

theorem eventsResponse_closed (h : Named labels decl names) :
    ∀ p ∈ eventsResponse names, p.ClosedIn labels :=
  closed_cons (closedIn_part rfl h.event)
    (closed_cons (closedIn_wellKnown rfl (by decide)) closed_nil)

/-- A message whose properties are all generated. -/
theorem authors_generated {name : String} {full : List PropertyDecl}
    (h : ∀ p ∈ full, p.ClosedIn labels) (howners : PropertyDecl.ownersList [name] full = []) :
    List.Forall₂ (Owner.Authors labels) (Owner.plain [] name []) (Owner.plain [] name full) :=
  Owner.authors_plain (fun p hp => .inr (h p hp)) howners

/-- A request for keys that goes on with a page and a query. -/
theorem authors_pageAndQuery {name : String} {keys : List PropertyDecl} :
    List.Forall₂ (Owner.Authors labels) (Owner.plain [] name keys)
      (Owner.plain [] name (keys ++ pageAndQuery)) := by
  refine Owner.authors_plain (fun p hp => ?_) ?_
  · exact (List.mem_append.mp hp).imp_right (pageAndQuery_closed p)
  · rw [PropertyDecl.ownersList_append]
    exact List.append_nil _

theorem authoredSchemas_authors (h : Named labels decl names) :
    List.Forall₂ (Owner.Authors labels) (Owner.authoredSchemas decl names)
      (Owner.ofEntityMain decl names) := by
  refine List.rel_append (Owner.authors_refl _) (List.rel_append (Owner.authors_refl _)
    (List.rel_append ?_ (List.rel_append ?_ (List.rel_append ?_ (Owner.authors_refl _)))))
  · exact authors_generated (stateProperties_closed h _) rfl
  · exact .cons ⟨rfl, fun p hp => .inr (branches_closed h p hp)⟩ (Owner.authors_refl _)
  · exact authors_generated (eventProperties_closed h) rfl

theorem authoredServices_authors (h : Named labels decl names) :
    List.Forall₂ (Owner.Authors labels) (Owner.authoredServices decl names)
      (Owner.ofEntityServices decl names) := by
  have hget : PropertyDecl.ownersList [names.schema "Get" ++ "Response"] (getResponse decl names) = [] := by
    unfold getResponse
    split <;> rfl
  refine List.rel_append ?_ (Owner.authors_refl _)
  refine List.rel_append (List.rel_append (Owner.authors_refl _) ?_)
    (List.rel_append (List.rel_append authors_pageAndQuery ?_)
      (List.rel_append authors_pageAndQuery ?_))
  · exact authors_generated (getResponse_closed h) hget
  · exact authors_generated (listResponse_closed h) rfl
  · exact authors_generated (eventsResponse_closed h) rfl

theorem authoredTopics_authors (h : Named labels decl names) :
    List.Forall₂ (Owner.Authors labels) (Owner.authoredTopics decl names)
      (Owner.ofEntityTopics decl names) := by
  refine List.rel_append (authors_generated (publishProperties_closed h) rfl) ?_
  have hsame : List.Forall₂ Eq decl.summaries decl.summaries := List.forall₂_same.mpr fun _ _ => rfl
  refine List.rel_flatMap hsame ?_
  rintro summary _ rfl
  refine Owner.authors_plain (List.forall_mem_cons.mpr ⟨?_, List.forall_mem_cons.mpr ⟨?_, ?_⟩⟩) rfl
  · exact .inr (closedIn_wellKnown rfl (by decide))
  · exact .inr (closedIn_part rfl h.keys)
  · exact fun _ hp => .inl hp

end Closed

variable {file : String} {decl : EntityDecl}

theorem Expansion.named (e : Expansion file decl) :
    Named (SchemaNode.labels (RootNode.allSchemas e.roots)) decl (.ofDecl decl.name) := by
  have hpart : ∀ kind name, ⟨kind, name⟩ ∈ decl.partLabels → kind ≠ .service → kind ≠ .topic →
      ⟨kind, name⟩ ∈ SchemaNode.labels (RootNode.allSchemas e.roots) := fun kind name hmem =>
    RootNode.label_mem_labels (e.roots_labels ▸ hmem)
  constructor
  case events =>
    intro event hevent
    obtain ⟨child, hchild, object, rfl, hnest, hname, -⟩ :=
      exists_of_forall₂_left (eventType_branchesPer e.eventType_eq).objects hevent
    have hlabel : (SchemaNode.object object).label = ⟨.object, Text.join "."
        [(Names.ofDecl decl.name).schema "EventType", Case.upperCamel event.name]⟩ := by
      rw [SchemaNode.label, Head.nameInPackage, Head.childNest, hnest, hname,
        eventType_childNest e.eventType_eq]
      rfl
    rw [← hlabel]
    have hroot : SchemaNode.oneof e.eventType ∈ RootNode.allSchemas e.roots :=
      List.mem_append_left _ (List.mem_filterMap.mpr
        ⟨.schema (.oneof e.eventType), by simp [roots], rfl⟩)
    have hholder : ⟨e.eventType.head.childNest, e.eventType.properties, e.eventType.nested⟩ ∈
        SchemaNode.holdersList (RootNode.allSchemas e.roots) := by
      rw [SchemaNode.holdersList_eq]
      exact List.mem_flatMap_of_mem hroot e.eventType.holder_mem_holders
    exact SchemaNode.label_mem_labels_of_holder hholder hchild
  all_goals exact hpart _ _ (by simp [EntityDecl.partLabels]) (by decide) (by decide)

/-- An entity written out: its parts in order, its events as branches, its keys in the queries, and no
reference left open that its author did not write. -/
structure WrittenOut (decl : EntityDecl) (roots : List RootNode) : Prop where
  order : roots.map RootNode.label = decl.partLabels
  events : ∃ node, roots[4]? = some (.schema (.oneof node)) ∧ node.BranchesPer decl.events
  queries : ∃ service, roots[6]? = some (.service service) ∧ service.Queries decl
  schemas : List.Forall₂ (Owner.ClosedIn (SchemaNode.labels (RootNode.allSchemas roots)))
    (Owner.authoredSchemas decl (.ofDecl decl.name)) (SchemaNode.holdersList (RootNode.schemas roots))
  services : List.Forall₂ (Owner.ClosedIn (SchemaNode.labels (RootNode.allSchemas roots)))
    (Owner.authoredServices decl (.ofDecl decl.name))
    (SchemaNode.holdersList (RootNode.serviceSchemas roots))
  topics : List.Forall₂ (Owner.ClosedIn (SchemaNode.labels (RootNode.allSchemas roots)))
    (Owner.authoredTopics decl (.ofDecl decl.name))
    (SchemaNode.holdersList (RootNode.topicSchemas roots))

/-- An entity that is accepted is written out in full. -/
theorem expand_complete {roots : List RootNode} (h : expand file decl = .ok roots) :
    WrittenOut decl roots := by
  obtain ⟨hschemas, hservices, htopics⟩ := expand_built h
  obtain ⟨e, rfl⟩ := exists_expansion h
  have hnamed := e.named
  refine ⟨e.roots_labels, ⟨e.eventType, rfl, eventType_branchesPer e.eventType_eq⟩,
    ⟨e.query, rfl, queryService_queries e.query_eq⟩, ?_, ?_, ?_⟩
  · exact hschemas.closedIn (authoredSchemas_authors hnamed) (List.subset_append_left _ _)
  · exact hservices.closedIn (authoredServices_authors hnamed)
      (fun _ h => List.mem_append_right _ (List.mem_append_left _ h))
  · exact htopics.closedIn (authoredTopics_authors hnamed)
      (fun _ h => List.mem_append_right _ (List.mem_append_right _ h))

/-- An order whose key declares an enum in its place, with a schema, a command and a summary. -/
def shopOrder : EntityDecl where
  name := "shop_order"
  keys :=
    [{ name := "region", schema := .key {}, entityKey := some { shard := true } },
     { name := "channel", schema := .enum (.inline { name := "", options := [{ name := "WEB" }] }) {} none
       entityKey := some { primary := true, shard := true } },
     { name := "id", schema := .key {}, entityKey := some { primary := true } }]
  data := [{ name := "lines", schema := .array (.object (.named { schema := "Line" }) false) {} none }]
  status := [{ name := "OPEN" }]
  events :=
    [{ name := "placed", properties := [{ name := "note", schema := .string {} }] }, { name := "paid" }]
  commands := [{ methods := [{ name := "Place" }] }]
  summaries := [{ name := "Totals" }]
  schemas := [.object { name := "Line" }]

/-- What the requests and responses refer to within the package. -/
def localReferences (roots : List RootNode) : List (String × String) :=
  (SchemaNode.holdersList (RootNode.serviceSchemas roots)).flatMap fun h =>
    h.properties.filterMap fun n =>
      (n.field.reference?.filter fun r => r.2.package.isNone).map fun r => (n.name, r.2.schema)

theorem expand_complete_shopOrder : ∃ roots,
    (expand "shop/v1/shop.j5s" shopOrder = .ok roots ∧
      (roots.map RootNode.label, localReferences roots) =
        ([⟨.object, "ShopOrderKeys"⟩, ⟨.object, "ShopOrderData"⟩, ⟨.enum, "ShopOrderStatus"⟩,
            ⟨.object, "ShopOrderState"⟩, ⟨.oneof, "ShopOrderEventType"⟩, ⟨.object, "ShopOrderEvent"⟩,
            ⟨.service, "ShopOrderQuery"⟩, ⟨.service, "ShopOrderCommand"⟩, ⟨.topic, "ShopOrderPublish"⟩,
            ⟨.topic, "Totals"⟩, ⟨.object, "Line"⟩],
          [("channel", "ShopOrderGetRequest.Channel"), ("shopOrder", "ShopOrderState"),
            ("shopOrders", "ShopOrderState"), ("channel", "ShopOrderEventsRequest.Channel"),
            ("events", "ShopOrderEvent")])) ∧
    WrittenOut shopOrder roots := by
  refine Exists.imp (fun roots h => ⟨h, expand_complete h.1⟩) (exists_ok_of_map ?_)
  decide +kernel

end Entity
end Schematic
