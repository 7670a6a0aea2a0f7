import Schematic.Proofs.Conversion.Messages
import Schematic.Proofs.Node.Numbers

/-!
# Numbers of fields

Whatever declares properties, or has them written for it, has them under distinct names and numbers:
those declared, and the places of the others.  An element with two properties of one number is refused.
The fields of a message have the numbers of its properties.
-/

namespace Schematic

/-! ## Numbers of what is declared -/

/-- The properties of a node are numbered as they were declared. -/
structure Owner.Numbers (o : Owner) (h : Holder) : Prop where
  path : h.path = o.path
  properties : PropertyNode.Numbered [] [] 1 o.properties h.properties

theorem Owner.BuiltInto.numbers {o : Owner} {h : Holder} (hbuilt : o.BuiltInto h) : o.Numbers h := by
  obtain ⟨file, owner, hoisted, -, hproperties, -⟩ := hbuilt.properties
  exact ⟨hbuilt.path, Build.properties_numbered hproperties⟩

/-- All messages of an element, in the main file, then among services and topics. -/
def Element.owners (element : Element) : List Owner :=
  element.mainOwners ++ (element.serviceOwners ++ element.topicOwners)

/-- The nodes among `nodes`, and inside them, that become messages. -/
def RootNode.holders (nodes : List RootNode) : List Holder :=
  SchemaNode.holdersList (schemas nodes) ++
    (SchemaNode.holdersList (serviceSchemas nodes) ++ SchemaNode.holdersList (topicSchemas nodes))

theorem Element.nodes_numbered {file : String} {element : Element} {nodes : List RootNode}
    (h : element.nodes file = .ok nodes) :
    List.Forall₂ Owner.Numbers element.owners (RootNode.holders nodes) := by
  obtain ⟨hschemas, hservices, htopics⟩ := Element.nodes_built h
  have hbuilt : List.Forall₂ Owner.BuiltInto element.owners (RootNode.holders nodes) :=
    List.rel_append hschemas (List.rel_append hservices htopics)
  exact hbuilt.imp fun _ _ => Owner.BuiltInto.numbers

theorem Element.exists_error {file : String} {element : Element} {o : Owner} (ho : o ∈ element.owners)
    (hclash : ¬ (PropertyDecl.numbersFrom 1 o.properties).Nodup) :
    ∃ e, element.nodes file = .error e := by
  cases h : element.nodes file with
  | error e => exact ⟨e, rfl⟩
  | ok nodes =>
      obtain ⟨holder, -, hnumbers⟩ := exists_mem_of_forall₂ (nodes_numbered h).flip ho
      have hdistinct := hnumbers.properties.distinctNumbers
      rw [hnumbers.properties.numbers] at hdistinct
      exact absurd hdistinct hclash

/-! ## Nodes and the schemas inside them -/

def SchemaNode.holder (node : SchemaNode) : Holder :=
  ⟨node.head.childNest, node.properties, node.nested⟩

mutual

theorem ObjectNode.holders_eq : (node : ObjectNode) → node.holders = node.within.map SchemaNode.holder
  | { head, properties, nested, entity, polymorphMember } => by
      rw [ObjectNode.holders, ObjectNode.within, SchemaNode.holdersList_within nested]
      rfl

theorem OneofNode.holders_eq : (node : OneofNode) → node.holders = node.within.map SchemaNode.holder
  | { head, properties, nested, entity } => by
      rw [OneofNode.holders, OneofNode.within, SchemaNode.holdersList_within nested]
      rfl

theorem SchemaNode.holdersList_within : (nodes : List SchemaNode) →
    SchemaNode.holdersList nodes = (SchemaNode.withinList nodes).map SchemaNode.holder
  | [] => rfl
  | .object node :: rest => by
      rw [SchemaNode.holdersList, SchemaNode.holders, SchemaNode.withinList, List.map_append,
        ObjectNode.holders_eq node, SchemaNode.holdersList_within rest]
  | .oneof node :: rest => by
      rw [SchemaNode.holdersList, SchemaNode.holders, SchemaNode.withinList, List.map_append,
        OneofNode.holders_eq node, SchemaNode.holdersList_within rest]
  | .polymorph node :: rest => by
      rw [SchemaNode.holdersList, SchemaNode.holders, SchemaNode.withinList, List.map_cons,
        SchemaNode.holdersList_within rest]
      rfl
  | .enum node :: rest => by
      rw [SchemaNode.holdersList, SchemaNode.holders, SchemaNode.withinList, List.nil_append,
        SchemaNode.holdersList_within rest]

end

theorem Owner.AllBuilt.distinct {owners : List Owner} {nodes : List SchemaNode}
    (h : AllBuilt owners nodes) {node : SchemaNode} (hnode : node ∈ SchemaNode.withinList nodes) :
    (node.properties.map PropertyNode.number).Nodup := by
  have hholder : node.holder ∈ SchemaNode.holdersList nodes := by
    rw [SchemaNode.holdersList_within]
    exact List.mem_map_of_mem hnode
  obtain ⟨o, -, hbuilt⟩ := exists_mem_of_forall₂ h hholder
  exact hbuilt.numbers.properties.distinctNumbers

/-! ## Messages -/

namespace Conversion

variable {c : Conversion}

theorem Lays.numbers {message : String} {oneof : Option Int} {oneofs : List OneofDescriptor}
    {properties : List PropertyNode} {m : MessageDescriptor} {parts : List FieldPart}
    (h : c.Lays message oneof oneofs properties m parts) :
    m.fields.map FieldDescriptor.number = (properties.map PropertyNode.number).map some := by
  have hnumbers : List.Forall₂ (fun p f => FieldDescriptor.number f = some (PropertyNode.number p))
      properties m.fields := h.shown.imp fun _ _ => PropertyNode.ShownBy.number
  rw [List.map_map, eq_comm, ← List.forall₂_eq_eq_eq, List.forall₂_map_left_iff,
    List.forall₂_map_right_iff]
  exact hnumbers.imp fun _ _ => Eq.symm

theorem Makes.nodup_numbers {package : String} {node : SchemaNode}
    {placed : List String × MessageDescriptor} (h : c.Makes package node placed)
    (hdistinct : (node.properties.map PropertyNode.number).Nodup) :
    (placed.2.fields.map FieldDescriptor.number).Nodup := by
  cases h with
  | object laid | oneof laid =>
      rw [laid.numbers]
      exact hdistinct.map (fun _ _ => Option.some.inj)
  | polymorph => exact List.nodup_singleton _

end Conversion

namespace Document

variable {d : Document} {r : Resolver} {files : List FileDescriptor}

/-- The schemas of each file are built from owners. -/
theorem exists_allBuilt (h : ∀ outcome ∈ d.outcomes, ∃ nodes, outcome = .ok nodes) {nodes : FileNodes}
    (hnodes : nodes ∈ d.fileNodes) : ∃ owners schemas, Owner.AllBuilt owners schemas ∧
      nodes.schemas = SchemaNode.withinList schemas := by
  obtain ⟨hmain, hservices, htopics⟩ := owners_built h
  rw [fileNodes, List.mem_cons, List.mem_append] at hnodes
  rcases hnodes with rfl | hnodes | hnodes
  · exact ⟨_, _, hmain, SchemaNode.withinList_messages _⟩
  · split at hnodes
    · cases hnodes
    · rw [List.mem_singleton.mp hnodes]
      refine ⟨_, _, hservices, ?_⟩
      rw [FileNodes.schemas, messages_serviceNodes, RootNode.serviceSchemas, List.map_flatMap]
  · split at hnodes
    · cases hnodes
    · rw [List.mem_singleton.mp hnodes]
      refine ⟨_, _, htopics, ?_⟩
      rw [FileNodes.schemas, messages_topicNodes, RootNode.topicSchemas, List.map_flatMap]

theorem nodup_numbers (h : d.convert r = .ok files) {f : FileDescriptor} (hf : f ∈ files)
    {path : List Int} {m : MessageDescriptor} (hm : f.part? path = some (.message m)) :
    (m.fields.map FieldDescriptor.number).Nodup := by
  obtain ⟨hnone, -⟩ := convert_eq_ok h
  obtain ⟨nodes, hnodes, hmade⟩ := exists_mem_of_forall₂ (convert_makes h) hf
  obtain ⟨owners, schemas, hbuilt, hschemas⟩ := exists_allBuilt (outcome_of_no_errors hnone) hnodes
  obtain ⟨node, hnode, placed, hmakes, rfl | hentry⟩ := hmade.exists_makes hm
  · rw [hschemas] at hnode
    exact hmakes.nodup_numbers (hbuilt.distinct hnode)
  · obtain ⟨name, span, value, rfl⟩ := hmakes.exists_mapEntry hentry
    exact (by decide : [some (1 : Int), some 2].Nodup)

/-- Every element of a document that can be built has its properties numbered as declared, one whose
numbers clash cannot be built, and no two fields of a message have the same number. -/
theorem owners_numbered (d : Document) (r : Resolver) :
    (∀ element ∈ d.elements,
      (∀ nodes, element.nodes d.path = .ok nodes →
        List.Forall₂ Owner.Numbers element.owners (RootNode.holders nodes)) ∧
      ((∃ o ∈ element.owners, ¬ (PropertyDecl.numbersFrom 1 o.properties).Nodup) →
        ∃ e, element.nodes d.path = .error e)) ∧
    ∀ files, d.convert r = .ok files → ∀ f ∈ files, ∀ path m, f.part? path = some (.message m) →
      (m.fields.map FieldDescriptor.number).Nodup := by
  refine ⟨fun element _ => ⟨fun nodes => Element.nodes_numbered, ?_⟩,
    fun files h f hf path m => nodup_numbers h hf⟩
  rintro ⟨o, ho, hclash⟩
  exact Element.exists_error ho hclash

/-- An entity whose keys and data have numbers of their own and places, and an object with the given
properties. -/
def ledger (properties : List PropertyDecl) : Document where
  path := "a/v1/a.j5s"
  package := "a.v1"
  elements :=
    [.entity
      { name := "Entry"
        keys :=
          [{ name := "entryId", number := some 7, schema := .key {}, entityKey := some { primary := true } },
           { name := "bookId", schema := .key {}, entityKey := some { shard := true } }]
        data := [{ name := "amount", schema := .integer {} }, { name := "memo", schema := .string {} }]
        status := [{ name := "OPEN" }]
        events := [{ name := "opened" }, { name := "closed" }] },
     .object { name := "Note", properties }]

/-- A key that is numbered 7 stands at place 1 in requests.  A property numbered 2 leaves no place for
the second. -/
theorem owners_numbered_ledger :
    (∃ files, (ledger [{ name := "text", number := some 2, schema := .string {} }]).convert
        (TypeTable.resolve {}) = .ok files ∧
      (∀ f ∈ files, ∀ path m, f.part? path = some (.message m) →
        (m.fields.map FieldDescriptor.number).Nodup) ∧
      (files.flatMap fun f => (f.placedMessages.map fun placed =>
          (placed.2.nameText, placed.2.fields.map FieldDescriptor.number)).filter fun x =>
            ["EntryKeys", "EntryEventType", "EntryGetRequest", "EntryListRequest", "Note"].contains x.1) =
        [("EntryKeys", [some 7, some 2]), ("EntryEventType", [some 1, some 2]), ("Note", [some 2]),
          ("EntryGetRequest", [some 1]), ("EntryListRequest", [some 1, some 2, some 3])]) ∧
    ∃ e, (Element.object { name := "Note", properties :=
      [{ name := "text", number := some 2, schema := .string {} }, { name := "by", schema := .string {} }]
        }).nodes "a/v1/a.j5s" = .error e := by
  constructor
  · obtain ⟨files, hconvert⟩ : ∃ files,
        (ledger [{ name := "text", number := some 2, schema := .string {} }]).convert
          (TypeTable.resolve {}) = .ok files := exists_convert (by decide +kernel)
    have hdistinct := (owners_numbered _ _).2 files hconvert
    obtain ⟨-, rfl⟩ := convert_eq_ok hconvert
    exact ⟨_, hconvert, hdistinct, by decide +kernel⟩
  · have hclash := ((owners_numbered (ledger
      [{ name := "text", number := some 2, schema := .string {} },
       { name := "by", schema := .string {} }]) (TypeTable.resolve {})).1 _
      (List.mem_cons_of_mem _ List.mem_cons_self)).2
    exact hclash ⟨_, List.mem_cons_self, by decide +kernel⟩

end Document
end Schematic
