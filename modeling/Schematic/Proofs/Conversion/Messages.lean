import Schematic.Proofs.Conversion.Comments

/-!
# Messages and the schemas they are made from

Each message of a converted file is made from a schema, at the top of the file or nested, or it is the
entry of a map in such a message.  The parts of the properties of the schema, one for each, make up all
its fields, its oneofs and its entries.
-/

namespace Schematic

theorem exists_mem_of_forall₂ {α β : Type} {R : α → β → Prop} {as : List α} {bs : List β}
    (h : List.Forall₂ R as bs) {b : β} (hb : b ∈ bs) : ∃ a ∈ as, R a b := by
  obtain ⟨i, hi⟩ := List.mem_iff_getElem?.mp hb
  obtain ⟨a, ha, hab⟩ := exists_getElem?_of_forall₂ h hi
  exact ⟨a, List.mem_of_getElem? ha, hab⟩

/-! ## Schemas inside schemas -/

mutual

def ObjectNode.within : ObjectNode → List SchemaNode
  | node@{ nested, .. } => .object node :: SchemaNode.withinList nested

def OneofNode.within : OneofNode → List SchemaNode
  | node@{ nested, .. } => .oneof node :: SchemaNode.withinList nested

/-- The schemas that become messages, each before those nested in it. -/
def SchemaNode.withinList : List SchemaNode → List SchemaNode
  | [] => []
  | .object node :: rest => node.within ++ SchemaNode.withinList rest
  | .oneof node :: rest => node.within ++ SchemaNode.withinList rest
  | .polymorph node :: rest => .polymorph node :: SchemaNode.withinList rest
  | .enum _ :: rest => SchemaNode.withinList rest

end

/-- Schemas that become enums do not matter. -/
theorem SchemaNode.withinList_messages (nodes : List SchemaNode) :
    withinList (messages nodes) = withinList nodes := by
  induction nodes with
  | nil => rfl
  | cons node rest ih =>
      cases node with
      | enum node => exact ih
      | object node => exact congrArg (node.within ++ ·) ih
      | oneof node => exact congrArg (node.within ++ ·) ih
      | polymorph node => exact congrArg (.polymorph node :: ·) ih

/-- The schemas that the messages of a file are made from. -/
def FileNodes.schemas (nodes : FileNodes) : List SchemaNode :=
  SchemaNode.withinList nodes.messages

/-! ## Kinds of fields -/

namespace FieldNode

def isArray : FieldNode → Bool
  | .array .. => true
  | _ => false

/-- What each value of a field is. -/
def item : FieldNode → FieldNode
  | .array items _ _ => items
  | .map items _ => items
  | single => single

end FieldNode

def PropertyNode.isCollection (p : PropertyNode) : Bool :=
  p.field.isArray || p.field.isMap

/-! ## Parts of properties -/

namespace Conversion

variable {c : Conversion}

/-- What the kind of a property decides about its part, where `value` is the type of its values. -/
inductive LaidOut (message : String) (p : PropertyNode) (value : ValueType) (part : FieldPart) : Prop
  | single (kind : p.isCollection = false) (label : part.field.label = some FieldLabel.optional)
      (type : part.field.type = some value.code) (typeName : part.field.typeName = value.typeName)
      (entry : part.entry = none)
  | array (kind : p.field.isArray = true) (isMap : p.isMap = false) (optional : p.optional = false)
      (label : part.field.label = some FieldLabel.repeated)
      (type : part.field.type = some value.code) (typeName : part.field.typeName = value.typeName)
      (entry : part.entry = none)
  | map (isMap : p.isMap = true) (optional : p.optional = false)
      (label : part.field.label = some FieldLabel.repeated)
      (type : part.field.type = some FieldType.message)
      (typeName : part.field.typeName =
        some ("." ++ message ++ "." ++ FileName.mapEntry (Case.snake p.name)))
      (entry : part.entry = some (mapEntry (FileName.mapEntry (Case.snake p.name)) p.span value))

/-- All that the part of a property tells of it. -/
structure Yields (c : Conversion) (message : String) (oneof : Option Int) (p : PropertyNode)
    (part : FieldPart) : Prop where
  shown : p.ShownBy part.field
  notBoth : ¬ (p.required = true ∧ p.optional = true)
  laidOut : ∃ value, c.valueType p.name p.field.item = .ok value ∧ LaidOut message p value part
  oneofIndex : part.field.oneofIndex = oneof
  synthetic : part.synthetic = true ↔
    oneof = none ∧ p.optional = true ∧ part.field.type ≠ some FieldType.message
  proto3Optional : part.field.proto3Optional = if part.synthetic then some true else none

theorem layout_laidOut {message : String} {p : PropertyNode} {l : Layout}
    (h : c.layout message p = .ok l) (options : Option Options) (oneofIndex : Option Int)
    (proto3Optional : Option Bool) (synthetic : Bool) (imports : List String) :
    ∃ value, c.valueType p.name p.field.item = .ok value ∧
      LaidOut message p value
        { field := { l.field with options, oneofIndex, proto3Optional }, entry := l.entry
          synthetic, imports } := by
  unfold layout at h
  cases hf : p.field with
  | array items rules single =>
      simp only [hf] at h
      split at h
      · cases h
      · rename_i hoptional
        obtain ⟨value, hvalue, h⟩ := bind_eq_ok h
        cases h
        exact ⟨value, valueType_of_itemType hvalue, .array (by rw [hf]; rfl)
          (by rw [PropertyNode.isMap, hf]; rfl) (Bool.eq_false_iff.mpr hoptional) rfl rfl rfl rfl⟩
  | map items rules =>
      simp only [hf] at h
      split at h
      · cases h
      · rename_i hoptional
        obtain ⟨value, hvalue, h⟩ := bind_eq_ok h
        cases h
        exact ⟨value, valueType_of_itemType hvalue, .map (by rw [PropertyNode.isMap, hf]; rfl)
          (Bool.eq_false_iff.mpr hoptional) rfl rfl rfl rfl⟩
  | _ =>
      simp only [hf] at h
      obtain ⟨value, hvalue, h⟩ := bind_eq_ok h
      cases h
      exact ⟨value, hvalue, .single (by rw [PropertyNode.isCollection, hf]; rfl) rfl rfl rfl rfl⟩

theorem property_yields {message : String} {oneof : Option Int} {p : PropertyNode} {part : FieldPart}
    (h : c.property message oneof p = .ok part) : c.Yields message oneof p part := by
  have hshown := property_shownBy h
  unfold property at h
  split at h
  · cases h
  · rename_i hboth
    obtain ⟨l, hl, h⟩ := bind_eq_ok h
    obtain ⟨⟨options, files⟩, -, h⟩ := bind_eq_ok h
    cases h
    refine ⟨hshown, ?_, layout_laidOut hl _ _ _ _ _, rfl, ?_, rfl⟩
    · rwa [Bool.and_eq_true] at hboth
    · simp [and_assoc]

/-! ## Lowering -/

/-- The fields of parts.  Those with a oneof of their own get the oneofs from `next` on. -/
def FieldPart.fieldsFrom (next : Nat) : List FieldPart → List FieldDescriptor
  | [] => []
  | part :: rest =>
    if part.synthetic then { part.field with oneofIndex := some next } :: fieldsFrom (next + 1) rest
    else part.field :: fieldsFrom next rest

/-- The oneofs of their own that parts have. -/
def FieldPart.ownOneofs (parts : List FieldPart) : List OneofDescriptor :=
  (parts.filter FieldPart.synthetic).map fun part => { name := some ("_" ++ part.field.nameText) }

theorem lowerOptional_append (done rest : List FieldDescriptor) (f : FieldDescriptor)
    (oneofs : List OneofDescriptor) :
    MessageDraft.lowerOptional (done ++ f :: rest, oneofs) done.length =
      (done ++ { f with oneofIndex := some (oneofs.length : Int) } :: rest,
        oneofs ++ [{ name := some ("_" ++ f.nameText) }]) := by
  have hget : (done ++ f :: rest)[done.length]? = some f := by simp
  rw [MessageDraft.lowerOptional, hget]
  simp

/-- Fields are lowered from the first to the last, and those before `done.length` are left alone. -/
theorem foldl_lowerOptional (parts : List (PropertyNode × FieldPart)) (done : List FieldDescriptor)
    (oneofs : List OneofDescriptor) :
    ((parts.zipIdx done.length).filterMap fun x => if x.1.2.synthetic then some x.2 else none).foldl
        MessageDraft.lowerOptional (done ++ parts.map fun x => x.2.field, oneofs) =
      (done ++ FieldPart.fieldsFrom oneofs.length (parts.map Prod.snd),
        oneofs ++ FieldPart.ownOneofs (parts.map Prod.snd)) := by
  induction parts generalizing done oneofs with
  | nil => simp [FieldPart.fieldsFrom, FieldPart.ownOneofs]
  | cons x rest ih =>
      obtain ⟨p, part⟩ := x
      cases hsynthetic : part.synthetic with
      | true =>
          have hrest := ih (done ++ [{ part.field with oneofIndex := some (oneofs.length : Int) }])
            (oneofs ++ [{ name := some ("_" ++ part.field.nameText) }])
          simp only [List.length_append, List.length_singleton, List.append_assoc,
            List.singleton_append] at hrest
          simp only [List.zipIdx_cons, List.filterMap_cons, hsynthetic, if_true, List.foldl_cons,
            List.map_cons, lowerOptional_append, hrest, FieldPart.fieldsFrom, FieldPart.ownOneofs,
            List.filter_cons_of_pos]
      | false =>
          have hrest := ih (done ++ [part.field]) oneofs
          simp only [List.length_append, List.length_singleton, List.append_assoc,
            List.singleton_append] at hrest
          simp only [List.zipIdx_cons, List.filterMap_cons, hsynthetic, Bool.false_eq_true, if_false,
            List.map_cons, hrest, FieldPart.fieldsFrom, FieldPart.ownOneofs, List.filter_cons]

theorem lowered_parts (parts : List (PropertyNode × FieldPart))
    (oneofs : List (Described OneofDescriptor)) :
    MessageDraft.lowered (fields parts) oneofs (synthetic parts) =
      (FieldPart.fieldsFrom oneofs.length (parts.map Prod.snd),
        oneofs.map Described.element ++ FieldPart.ownOneofs (parts.map Prod.snd)) := by
  have hfold := foldl_lowerOptional parts [] (oneofs.map Described.element)
  rw [List.length_map] at hfold
  rw [MessageDraft.lowered, fields, List.map_map]
  exact hfold

/-! ## Messages of schemas -/

/-- A message has the fields, the oneofs and the entries of parts, one part for each property. -/
structure Lays (c : Conversion) (message : String) (oneof : Option Int) (oneofs : List OneofDescriptor)
    (properties : List PropertyNode) (m : MessageDescriptor) (parts : List FieldPart) : Prop where
  each : List.Forall₂ (c.Yields message oneof) properties parts
  fields : m.fields = FieldPart.fieldsFrom oneofs.length parts
  oneofs : m.oneofs = oneofs ++ FieldPart.ownOneofs parts
  entries : m.mapEntries = (parts.filterMap FieldPart.entry).map MessageDraft.descriptor

theorem lays_parts {oneof : Option Int} {properties : List PropertyNode}
    (h : c.propertyErrors oneof properties = []) (message : String)
    (oneofs : List (Described OneofDescriptor)) {m : MessageDescriptor}
    (hfields : m.fields = (MessageDraft.lowered (fields (c.parts message oneof properties)) oneofs
      (synthetic (c.parts message oneof properties))).1)
    (honeofs : m.oneofs = (MessageDraft.lowered (fields (c.parts message oneof properties)) oneofs
      (synthetic (c.parts message oneof properties))).2)
    (hentries : m.mapEntries =
      MessageDraft.descriptors (Conversion.entries (c.parts message oneof properties))) :
    c.Lays message oneof (oneofs.map Described.element) properties m
      ((c.parts message oneof properties).map Prod.snd) := by
  rw [lowered_parts] at hfields honeofs
  refine ⟨?_, by rw [hfields, List.length_map], honeofs, ?_⟩
  · have hparts : List.Forall₂ (c.Yields message oneof)
        ((c.parts message oneof properties).map Prod.fst)
        ((c.parts message oneof properties).map Prod.snd) := by
      rw [List.forall₂_map_left_iff, List.forall₂_map_right_iff]
      exact List.forall₂_same.mpr fun x hx => property_yields (property_of_mem_parts hx)
    rwa [parts_of_no_errors h] at hparts
  · rw [hentries, MessageDraft.descriptors_eq, List.filterMap_map]
    rfl

theorem FieldPart.exists_fieldsFrom_cons (next : Nat) (part : FieldPart) (rest : List FieldPart) :
    ∃ oneofIndex next', fieldsFrom next (part :: rest) =
      { part.field with oneofIndex } :: fieldsFrom next' rest := by
  rw [fieldsFrom]
  split
  · exact ⟨_, _, rfl⟩
  · exact ⟨part.field.oneofIndex, next, rfl⟩

theorem shown_fieldsFrom {message : String} {oneof : Option Int} {ps : List PropertyNode}
    {parts : List FieldPart} (h : List.Forall₂ (c.Yields message oneof) ps parts) (next : Nat) :
    List.Forall₂ PropertyNode.ShownBy ps (FieldPart.fieldsFrom next parts) := by
  induction h generalizing next with
  | nil => exact .nil
  | @cons p part ps parts hp _ ih =>
      obtain ⟨oneofIndex, next', hfields⟩ := FieldPart.exists_fieldsFrom_cons next part parts
      rw [hfields]
      exact .cons ⟨hp.shown.jsonName, hp.shown.name, hp.shown.number⟩ (ih next')

theorem Lays.shown {message : String} {oneof : Option Int} {oneofs : List OneofDescriptor}
    {properties : List PropertyNode} {m : MessageDescriptor} {parts : List FieldPart}
    (h : c.Lays message oneof oneofs properties m parts) :
    List.Forall₂ PropertyNode.ShownBy properties m.fields := by
  rw [h.fields]
  exact shown_fieldsFrom h.each _

/-- A message of a file of `package` is made from a schema and stands where the schema does. -/
inductive Makes (c : Conversion) (package : String) :
    SchemaNode → List String × MessageDescriptor → Prop
  | object {node : ObjectNode} {m : MessageDescriptor} {parts : List FieldPart}
      (laid : c.Lays (scopeOf package node.head.childNest) none [] node.properties m parts) :
      Makes c package (.object node) (node.head.childNest, m)
  /-- All fields of a oneof belong to the oneof `type`. -/
  | oneof {node : OneofNode} {m : MessageDescriptor} {parts : List FieldPart}
      (laid : c.Lays (scopeOf package node.head.childNest) (some 0) [{ name := some "type" }]
        node.properties m parts) :
      Makes c package (.oneof node) (node.head.childNest, m)
  | polymorph {node : PolymorphNode} :
      Makes c package (.polymorph node) (node.head.childNest, (polymorphDraft node).descriptor)

mutual

theorem makes_object (package : String) {nest : List String} : (node : ObjectNode) →
    node.StandsIn nest → c.objectErrors node = [] →
      List.Forall₂ (c.Makes package) node.within
        (((c.objectDraft (scopeOf package nest) node).descriptor.elements nest).filterMap
          PlacedElement.message?)
  | { head, properties, nested, entity, polymorphMember }, ⟨hnest, hnested⟩, herrors => by
      rw [objectErrors, List.append_eq_nil_iff, List.append_eq_nil_iff] at herrors
      have hchild : head.childNest = nest ++ [head.name] := by rw [Head.childNest, hnest]
      rw [elements_objectDraft, ObjectNode.within, ← scopeOf_concat]
      dsimp only
      rw [← hchild]
      refine List.Forall₂.cons (.object (lays_parts herrors.1.2 _ [] ?_ ?_ ?_))
        (makes_schemas package nested hnested herrors.2)
      all_goals
        rw [objectDraft, MessageDraft.descriptor, hchild, scopeOf_concat]
      rw [MessageDescriptor.mapEntries, filter_isMapEntry]

theorem makes_oneof (package : String) {nest : List String} : (node : OneofNode) →
    node.StandsIn nest → c.oneofErrors node = [] →
      List.Forall₂ (c.Makes package) node.within
        (((c.oneofDraft (scopeOf package nest) node).descriptor.elements nest).filterMap
          PlacedElement.message?)
  | { head, properties, nested, entity }, ⟨hnest, hnested⟩, herrors => by
      rw [oneofErrors, List.append_eq_nil_iff] at herrors
      have hchild : head.childNest = nest ++ [head.name] := by rw [Head.childNest, hnest]
      rw [elements_oneofDraft, OneofNode.within, ← scopeOf_concat]
      dsimp only
      rw [← hchild]
      refine List.Forall₂.cons
        (.oneof (lays_parts herrors.1 _ [⟨{ name := some "type" }, none, head.span⟩] ?_ ?_ ?_))
        (makes_schemas package nested hnested herrors.2)
      all_goals
        rw [oneofDraft, MessageDraft.descriptor, hchild, scopeOf_concat]
      rw [MessageDescriptor.mapEntries, filter_isMapEntry]

/-- The messages of schemas are made from these and from what is nested in them, in their order. -/
theorem makes_schemas (package : String) {nest : List String} : (nodes : List SchemaNode) →
    SchemaNode.AllStandIn nest nodes → c.schemaErrorsList nodes = [] →
      List.Forall₂ (c.Makes package) (SchemaNode.withinList nodes)
        ((c.schemaElements (scopeOf package nest) nest nodes).filterMap PlacedElement.message?)
  | [], _, _ => List.Forall₂.nil
  | .object node :: rest, ⟨hnode, hrest⟩, herrors => by
      rw [schemaErrorsList, schemaErrors, List.append_eq_nil_iff] at herrors
      rw [schemaElements, messageDrafts, MessageDraft.descriptors, MessageDescriptor.elementsList,
        List.append_assoc, List.filterMap_append]
      exact List.rel_append (makes_object package node hnode herrors.1)
        (makes_schemas package rest hrest herrors.2)
  | .oneof node :: rest, ⟨hnode, hrest⟩, herrors => by
      rw [schemaErrorsList, schemaErrors, List.append_eq_nil_iff] at herrors
      rw [schemaElements, messageDrafts, MessageDraft.descriptors, MessageDescriptor.elementsList,
        List.append_assoc, List.filterMap_append]
      exact List.rel_append (makes_oneof package node hnode herrors.1)
        (makes_schemas package rest hrest herrors.2)
  | .polymorph node :: rest, ⟨hnode, hrest⟩, herrors => by
      rw [schemaErrorsList, List.append_eq_nil_iff] at herrors
      have hchild : nest ++ [node.head.name] = node.head.childNest := by
        rw [Head.childNest, ← hnode]
      rw [schemaElements, messageDrafts, MessageDraft.descriptors, MessageDescriptor.elementsList,
        List.append_assoc, elements_polymorphDraft, hchild]
      exact List.Forall₂.cons .polymorph (makes_schemas package rest hrest herrors.2)
  | .enum node :: rest, ⟨_, hrest⟩, herrors => by
      rw [schemaErrorsList, List.append_eq_nil_iff] at herrors
      have hmakes := makes_schemas package rest hrest herrors.2
      rw [schemaElements, List.filterMap_append] at hmakes ⊢
      rw [messageDrafts]
      exact hmakes

end

theorem Lays.exists_mapEntry {message : String} {oneof : Option Int} {oneofs : List OneofDescriptor}
    {properties : List PropertyNode} {m : MessageDescriptor} {parts : List FieldPart}
    (h : c.Lays message oneof oneofs properties m parts) {entry : MessageDescriptor}
    (hentry : entry ∈ m.mapEntries) :
    ∃ name span value, entry = (mapEntry name span value).descriptor := by
  rw [h.entries] at hentry
  obtain ⟨draft, hdraft, rfl⟩ := List.mem_map.mp hentry
  obtain ⟨part, hpart, hdraft⟩ := List.mem_filterMap.mp hdraft
  obtain ⟨p, -, hp⟩ := exists_mem_of_forall₂ h.each hpart
  obtain ⟨value, -, hlaid⟩ := hp.laidOut
  cases hlaid with
  | single _ _ _ _ hnone | array _ _ _ _ _ _ hnone =>
      rw [hnone] at hdraft
      cases hdraft
  | map _ _ _ _ _ hsome =>
      rw [hsome] at hdraft
      cases hdraft
      exact ⟨_, _, _, rfl⟩

theorem Makes.exists_mapEntry {package : String} {node : SchemaNode}
    {placed : List String × MessageDescriptor} (h : c.Makes package node placed)
    {entry : MessageDescriptor} (hentry : entry ∈ placed.2.mapEntries) :
    ∃ name span value, entry = (mapEntry name span value).descriptor := by
  cases h with
  | object laid => exact laid.exists_mapEntry hentry
  | oneof laid => exact laid.exists_mapEntry hentry
  | polymorph => cases hentry

end Conversion

/-! ## Messages at their places -/

namespace FilePart

theorem exists_row_of_item? {rows : List (Int × List FilePart)} {number index : Int} {p : FilePart}
    (h : item? rows number index = some p) : ∃ row, (number, row) ∈ rows ∧ p ∈ row := by
  obtain ⟨row, hrow, i, -, hp⟩ := item?_eq_some_iff.mp h
  obtain ⟨before, behind, rfl, -⟩ := List.lookup_eq_some_iff.mp hrow
  exact ⟨row, List.mem_append_right _ List.mem_cons_self, List.mem_of_getElem? hp⟩

/-- What a path leads to is a message only if it starts from one. -/
theorem exists_message_of_place? {m : MessageDescriptor} : (path : List Int) →
    ∀ {scope scope' : String} {p : FilePart}, p.place? scope path = some (scope', .message m) →
      ∃ m', p = .message m'
  | [], _, _, _, h => by
      cases h
      exact ⟨m, rfl⟩
  | [_], _, _, _, h => by cases h
  | number :: index :: rest, scope, scope', p, h => by
      obtain ⟨q, hq, h⟩ := Option.bind_eq_some_iff.mp h
      obtain ⟨n, rfl⟩ := exists_message_of_place? rest h
      obtain ⟨row, hrow, hn⟩ := exists_row_of_item? hq
      cases p with
      | message m' => exact ⟨m', rfl⟩
      | enum e | service e =>
          obtain ⟨-, rfl⟩ := Prod.mk.inj (List.mem_singleton.mp hrow)
          obtain ⟨_, -, hv⟩ := List.mem_map.mp hn
          cases hv
      | _ => cases hrow

/-- A message inside a message stands in one of those right inside it, or is one of them. -/
theorem exists_nested_of_place? {m m₀ : MessageDescriptor} {scope scope' : String} {number index : Int}
    {rest : List Int}
    (h : (FilePart.message m₀).place? scope (number :: index :: rest) = some (scope', .message m)) :
    ∃ n ∈ m₀.nested, ∃ inner, (FilePart.message n).place? inner rest = some (scope', .message m) := by
  obtain ⟨q, hq, h⟩ := Option.bind_eq_some_iff.mp h
  obtain ⟨n, rfl⟩ := exists_message_of_place? rest h
  obtain ⟨row, hrow, hn⟩ := exists_row_of_item? hq
  refine ⟨n, ?_, _, h⟩
  simp only [rows, List.mem_cons, Prod.mk.injEq, List.not_mem_nil, or_false] at hrow
  rcases hrow with ⟨-, rfl⟩ | ⟨-, rfl⟩ | ⟨-, rfl⟩ | ⟨-, rfl⟩ | ⟨-, rfl⟩ <;>
    obtain ⟨x, hx, heq⟩ := List.mem_map.mp hn <;> cases heq
  exact hx

theorem place?_nested {m n : MessageDescriptor} {i : Nat} (hn : m.nested[i]? = some n) {scope : String}
    {path : List Int} : (FilePart.message m).place? scope (3 :: (i : Int) :: path) =
      (FilePart.message n).place? (qualify scope m.nameText) path := by
  have hitem : item? (FilePart.message m).rows 3 i = some (.message n) :=
    item?_eq_some rfl (by rw [List.getElem?_map, hn]; rfl)
  rw [place?, hitem]
  rfl

end FilePart

/-- Enums are no messages. -/
theorem filterMap_enums (outer : List String) (enums : List EnumDescriptor) :
    (EnumDescriptor.elements outer enums).filterMap PlacedElement.message? = [] := by
  refine List.filterMap_eq_nil_iff.mpr fun e he => ?_
  obtain ⟨enum, -, rfl⟩ := List.mem_map.mp he
  rfl

namespace MessageDescriptor

/-- The messages that `elements` lists, without the enums. -/
def placed (outer : List String) (m : MessageDescriptor) : List (List String × MessageDescriptor) :=
  (m.elements outer).filterMap PlacedElement.message?

theorem mem_placed_self {m : MessageDescriptor} (h : m.isMapEntry = false) (outer : List String) :
    (outer ++ [m.nameText], m) ∈ m.placed outer := by
  rw [placed, elements_of_not_isMapEntry h]
  exact List.mem_cons_self

theorem elements_subset_elementsList {m : MessageDescriptor} {ms : List MessageDescriptor} (hm : m ∈ ms)
    (outer : List String) : m.elements outer ⊆ elementsList outer ms := by
  obtain ⟨before, behind, rfl⟩ := List.append_of_mem hm
  rw [elementsList_append, elementsList]
  exact fun e he => List.mem_append_right _ (List.mem_append_left _ he)

theorem placed_subset_placed {m n : MessageDescriptor} (h : m.isMapEntry = false) (hn : n ∈ m.nested)
    (outer : List String) : n.placed (outer ++ [m.nameText]) ⊆ m.placed outer := by
  refine List.filterMap_subset _ fun e he => ?_
  rw [elements_of_not_isMapEntry h]
  exact List.mem_cons_of_mem _ (List.mem_append_left _ (elements_subset_elementsList hn _ he))

/-- Whatever message stands in a message is listed, or it is the entry of a map in one that is, if
there is nothing in such entries. -/
theorem exists_placed_of_place? {m : MessageDescriptor} : (path : List Int) →
    ∀ {m₀ : MessageDescriptor} {outer : List String} {scope scope' : String}, m₀.isMapEntry = false →
      (∀ placed ∈ m₀.placed outer, ∀ entry ∈ placed.2.mapEntries, entry.nested = []) →
      (FilePart.message m₀).place? scope path = some (scope', .message m) →
        ∃ placed ∈ m₀.placed outer, m = placed.2 ∨ m ∈ placed.2.mapEntries
  | [], m₀, outer, _, _, hm₀, _, h => by
      cases h
      exact ⟨_, mem_placed_self hm₀ outer, Or.inl rfl⟩
  | [_], _, _, _, _, _, _, h => by cases h
  | number :: index :: rest, m₀, outer, scope, scope', hm₀, hentries, h => by
      obtain ⟨n, hn, inner, h⟩ := FilePart.exists_nested_of_place? h
      cases hentry : n.isMapEntry with
      | false =>
          have hsub := placed_subset_placed hm₀ hn outer
          obtain ⟨placed, hplaced, hm⟩ :=
            exists_placed_of_place? rest hentry (fun placed hplaced => hentries placed (hsub hplaced)) h
          exact ⟨placed, hsub hplaced, hm⟩
      | true =>
          have hmem : n ∈ m₀.mapEntries := List.mem_filter.mpr ⟨hn, hentry⟩
          have hnone := hentries _ (mem_placed_self hm₀ outer) n hmem
          refine ⟨_, mem_placed_self hm₀ outer, Or.inr ?_⟩
          -- There is nothing in the entry for the rest of the path to lead to.
          cases rest with
          | nil =>
              cases h
              exact hmem
          | cons number rest =>
              cases rest with
              | nil => cases h
              | cons index rest =>
                  obtain ⟨n', hn', -⟩ := FilePart.exists_nested_of_place? h
                  rw [hnone] at hn'
                  cases hn'

theorem mem_placed_cases {m : MessageDescriptor} {outer : List String}
    {placed : List String × MessageDescriptor} (h : placed ∈ m.placed outer) :
    placed.2 = m ∨
      placed ∈ (elementsList (outer ++ [m.nameText]) m.nested).filterMap PlacedElement.message? := by
  cases hentry : m.isMapEntry with
  | true =>
      rw [MessageDescriptor.placed, elements_of_isMapEntry hentry] at h
      cases h
  | false =>
      rw [MessageDescriptor.placed, elements_of_not_isMapEntry hentry, List.filterMap_append,
        filterMap_enums, List.append_nil] at h
      rcases List.mem_cons.mp h with rfl | h
      · exact Or.inl rfl
      · exact Or.inr h

mutual

/-- To every message that is listed a path leads. -/
theorem exists_place?_of_mem_placed : (m : MessageDescriptor) → ∀ {outer : List String}
    {placed : List String × MessageDescriptor}, placed ∈ m.placed outer → ∀ scope : String,
      ∃ path scope', (FilePart.message m).place? scope path = some (scope', .message placed.2)
  | ⟨name, fields, nested, enums, ranges, extensions, options, oneofs, reserved, names⟩,
      outer, placed, h, scope => by
      rcases mem_placed_cases h with heq | h
      · exact ⟨[], scope, by rw [heq]; rfl⟩
      · obtain ⟨i, n, hn, path, scope', hplace⟩ :=
          exists_place?_of_mem_placedList nested h (qualify scope (name.getD ""))
        exact ⟨3 :: (i : Int) :: path, scope', (FilePart.place?_nested hn).trans hplace⟩

theorem exists_place?_of_mem_placedList : (ms : List MessageDescriptor) → ∀ {outer : List String}
    {placed : List String × MessageDescriptor},
      placed ∈ (elementsList outer ms).filterMap PlacedElement.message? → ∀ scope : String,
      ∃ (i : Nat) (n : MessageDescriptor), ms[i]? = some n ∧ ∃ path scope',
        (FilePart.message n).place? scope path = some (scope', .message placed.2)
  | [], _, _, h, _ => by cases h
  | m :: rest, outer, placed, h, scope => by
      rw [elementsList, List.filterMap_append] at h
      rcases List.mem_append.mp h with h | h
      · obtain ⟨path, scope', hplace⟩ := exists_place?_of_mem_placed m h scope
        exact ⟨0, m, rfl, path, scope', hplace⟩
      · obtain ⟨i, n, hn, hplace⟩ := exists_place?_of_mem_placedList rest h scope
        exact ⟨i + 1, n, hn, hplace⟩

end

end MessageDescriptor

/-! ## Files -/

namespace FileDescriptor

theorem exists_part?_of_mem_placed {f : FileDescriptor} {placed : List String × MessageDescriptor}
    (h : placed ∈ f.placedMessages) : ∃ path, f.part? path = some (.message placed.2) := by
  rw [placedMessages, elements, List.filterMap_append, filterMap_enums, List.append_nil] at h
  obtain ⟨i, n, hn, path, scope', hplace⟩ :=
    MessageDescriptor.exists_place?_of_mem_placedList f.messages h f.packageText
  have hitem : FilePart.item? f.rows 4 i = some (.message n) :=
    FilePart.item?_eq_some rfl (by rw [List.getElem?_map, hn]; rfl)
  refine ⟨4 :: (i : Int) :: path, ?_⟩
  rw [part?, place?, hitem, Option.bind_some, hplace]
  rfl

theorem placed_subset_placedMessages {f : FileDescriptor} {m : MessageDescriptor}
    (hm : m ∈ f.messages) : m.placed [] ⊆ f.placedMessages :=
  List.filterMap_subset _ fun _ he =>
    List.mem_append_left _ (MessageDescriptor.elements_subset_elementsList hm [] he)

/-- A message of a file stands in one at its top, or is one of these. -/
theorem exists_message_of_part? {f : FileDescriptor} {path : List Int} {m : MessageDescriptor}
    (h : f.part? path = some (.message m)) : ∃ m₀ ∈ f.messages, ∃ scope scope' rest,
      (FilePart.message m₀).place? scope rest = some (scope', .message m) := by
  obtain ⟨⟨scope', p⟩, hplace, hp⟩ := Option.map_eq_some_iff.mp h
  cases hp
  unfold place? at hplace
  split at hplace
  · rename_i number index rest
    obtain ⟨q, hq, hplace⟩ := Option.bind_eq_some_iff.mp hplace
    obtain ⟨m₀, rfl⟩ := FilePart.exists_message_of_place? rest hplace
    obtain ⟨row, hrow, hm₀⟩ := FilePart.exists_row_of_item? hq
    refine ⟨m₀, ?_, _, _, rest, hplace⟩
    simp only [rows, List.mem_cons, Prod.mk.injEq, List.not_mem_nil, or_false] at hrow
    rcases hrow with ⟨-, rfl⟩ | ⟨-, rfl⟩ | ⟨-, rfl⟩ | ⟨-, rfl⟩ <;>
      obtain ⟨x, hx, heq⟩ := List.mem_map.mp hm₀ <;> cases heq
    exact hx
  · cases hplace

end FileDescriptor

/-- The messages of a file are made from its schemas, in their order. -/
structure FileNodes.MadeInto (c : Conversion) (nodes : FileNodes) (f : FileDescriptor) : Prop where
  messages : List.Forall₂ (c.Makes nodes.package) nodes.schemas f.placedMessages
  top : ∀ m ∈ f.messages, m.isMapEntry = false

/-- Every message of a file, wherever it stands, is listed or is the entry of a map in one that is. -/
theorem FileNodes.MadeInto.exists_placed {c : Conversion} {nodes : FileNodes} {f : FileDescriptor}
    (h : nodes.MadeInto c f) {path : List Int} {m : MessageDescriptor}
    (hm : f.part? path = some (.message m)) :
    ∃ placed ∈ f.placedMessages, m = placed.2 ∨ m ∈ placed.2.mapEntries := by
  obtain ⟨m₀, hm₀, scope, scope', rest, hplace⟩ := FileDescriptor.exists_message_of_part? hm
  have hsub := FileDescriptor.placed_subset_placedMessages hm₀
  have hentries : ∀ placed ∈ m₀.placed [], ∀ entry ∈ placed.2.mapEntries, entry.nested = [] := by
    intro placed hplaced entry hentry
    obtain ⟨node, -, hmakes⟩ := exists_mem_of_forall₂ h.messages (hsub hplaced)
    obtain ⟨name, span, value, rfl⟩ := hmakes.exists_mapEntry hentry
    rfl
  obtain ⟨placed, hplaced, hm⟩ :=
    MessageDescriptor.exists_placed_of_place? rest (h.top m₀ hm₀) hentries hplace
  exact ⟨placed, hsub hplaced, hm⟩

/-- What is listed is made from a schema. -/
theorem FileNodes.MadeInto.exists_makes {c : Conversion} {nodes : FileNodes} {f : FileDescriptor}
    (h : nodes.MadeInto c f) {path : List Int} {m : MessageDescriptor}
    (hm : f.part? path = some (.message m)) :
    ∃ node ∈ nodes.schemas, ∃ placed, c.Makes nodes.package node placed ∧
      (m = placed.2 ∨ m ∈ placed.2.mapEntries) := by
  obtain ⟨placed, hplaced, hm⟩ := h.exists_placed hm
  obtain ⟨node, hnode, hmakes⟩ := exists_mem_of_forall₂ h.messages hplaced
  exact ⟨node, hnode, placed, hmakes, hm⟩

namespace Document

variable {d : Document} {r : Resolver} {files : List FileDescriptor}

/-- A file with the messages and enums of schemas is made from these. -/
theorem madeInto_of_nodes {nodes : FileNodes} {f : FileDescriptor} {schemas : List SchemaNode}
    (hschemas : nodes.schemas = SchemaNode.withinList schemas)
    (hstand : SchemaNode.AllStandIn [] schemas)
    (herrors : (d.conversion r).schemaErrorsList schemas = [])
    (hmessages : f.messages =
      MessageDraft.descriptors ((d.conversion r).messageDrafts nodes.package schemas))
    (henums : f.enums = (Conversion.enumDrafts schemas).map EnumDraft.descriptor) :
    nodes.MadeInto (d.conversion r) f where
  messages := by
    rw [hschemas, FileDescriptor.placedMessages, FileDescriptor.elements, hmessages, henums]
    exact Conversion.makes_schemas nodes.package schemas hstand herrors
  top := by
    rw [hmessages]
    exact fun m => Conversion.isMapEntry_messageDrafts

theorem madeInto_of_objects {nodes : FileNodes} {f : FileDescriptor} {objects : List ObjectNode}
    (hnodes : nodes.messages = objects.map .object)
    (hobjects : ∀ object ∈ objects, object.StandsIn [] ∧
      (d.conversion r).objectErrors object = [])
    (hmessages : f.messages =
      MessageDraft.descriptors (objects.map ((d.conversion r).objectDraft nodes.package)))
    (henums : f.enums = []) : nodes.MadeInto (d.conversion r) f := by
  refine madeInto_of_nodes (by rw [FileNodes.schemas, hnodes]) ?_ ?_
    (by rw [hmessages, Conversion.messageDrafts_objects])
    (by rw [henums, Conversion.enumDrafts_objects]; rfl)
  · rw [SchemaNode.allStandIn_iff, List.forall_mem_map]
    exact fun object hobject => (hobjects object hobject).1
  · rw [Conversion.schemaErrorsList_eq, List.flatMap_eq_nil_iff, List.forall_mem_map]
    exact fun object hobject => (hobjects object hobject).2

/-- The messages of each file of a document are made from the schemas of that file. -/
theorem convert_makes (h : d.convert r = .ok files) :
    List.Forall₂ (FileNodes.MadeInto (d.conversion r)) d.fileNodes files := by
  obtain ⟨hnone, rfl⟩ := convert_eq_ok h
  rw [fileNodes, drafts, List.map_cons, List.map_append]
  refine .cons ?_ (List.rel_append ?_ ?_)
  · exact madeInto_of_nodes (SchemaNode.withinList_messages _) d.schemas_standIn
      (schemaErrors_of_no_errors hnone) rfl rfl
  · rw [serviceDraft?]
    split
    · exact .nil
    · refine .cons (madeInto_of_objects (messages_serviceNodes d) (fun object hobject => ?_) rfl rfl) .nil
      obtain ⟨hstands, herrors, -⟩ := service_objects hnone object hobject
      exact ⟨hstands, herrors⟩
  · rw [topicDraft?]
    split
    · exact .nil
    · refine .cons (madeInto_of_objects (messages_topicNodes d) (fun object hobject => ?_) rfl rfl) .nil
      obtain ⟨hstands, herrors, -⟩ := topic_objects hnone object hobject
      exact ⟨hstands, herrors⟩

end Document
end Schematic
