import Schematic.Proofs.Conversion.Lookup
import Schematic.Proofs.Link.Uses
import Schematic.Proofs.Node.Nesting
import Schematic.Proofs.Text.Dotted

/-!
# What converted files declare

The types that a document says it declares are the messages and enums of its files, under
the full names that it gives them.
-/

namespace Schematic

/-- What a type is in a table of symbols. -/
def TypeKind.symbolKind : TypeKind → SymbolKind
  | .enum _ => .enum
  | _ => .message

def TypeRef.symbol (t : TypeRef) : Symbol :=
  { kind := t.kind.symbolKind, file := t.file }

/-- The table has the type, as what it is and in its file. -/
def Symbols.Declares (s : Symbols) (t : TypeRef) : Prop :=
  ∃ symbol, s.lookup t.fullName = some symbol ∧ symbol.kind = t.kind.symbolKind ∧
    symbol.file = t.file

/-! ## Lists of descriptors -/

theorem Declared.messages_eq (file scope : String) (ms : List MessageDescriptor) :
    Declared.messages file scope ms = ms.flatMap (Declared.message file scope) := by
  induction ms with
  | nil => rfl
  | cons m rest ih => rw [messages, ih, List.flatMap_cons]

theorem MessageDraft.descriptors_eq (ds : List MessageDraft) :
    MessageDraft.descriptors ds = ds.map MessageDraft.descriptor := by
  induction ds with
  | nil => rfl
  | cons d rest ih => rw [descriptors, ih, List.map_cons]

/-- The names of the messages of drafts. -/
def MessageDraft.names (file scope : String) (ds : List MessageDraft) : List (String × Symbol) :=
  ds.flatMap fun d => Declared.message file scope d.descriptor

theorem MessageDraft.names_append (file scope : String) (a b : List MessageDraft) :
    names file scope (a ++ b) = names file scope a ++ names file scope b :=
  List.flatMap_append

/-- What a message declares: itself, and what the messages and enums in it declare. -/
theorem MessageDraft.mem_message {file scope : String} (d : MessageDraft) (hscope : Rooted scope)
    {entry : String × Symbol}
    (h : entry = (scope ++ "." ++ d.name, { kind := .message, file }) ∨
      entry ∈ names file (scope ++ "." ++ d.name) d.nested ∨
      entry ∈ (d.enums.map EnumDraft.descriptor).flatMap (Declared.enum file (scope ++ "." ++ d.name))) :
    entry ∈ Declared.message file scope d.descriptor := by
  obtain ⟨name, description, span, fields, oneofs, synthetic, nested, enums, options⟩ := d
  rw [descriptor, Declared.message, Option.getD_some, hscope.qualify, Declared.messages_eq,
    descriptors_eq, List.flatMap_map]
  simp only [List.mem_append, List.mem_cons]
  rcases h with rfl | h | h
  · exact Or.inl (Or.inl (Or.inl (Or.inl (Or.inl rfl))))
  · exact Or.inl (Or.inl (Or.inr h))
  · exact Or.inl (Or.inr h)

/-! ## Types of nodes -/

namespace Conversion

variable (c : Conversion) {package file : String} (hpackage : Rooted package)

/-- The names of the messages and enums of schemas. -/
def schemaNames (file scope : String) (nodes : List SchemaNode) : List (String × Symbol) :=
  MessageDraft.names file scope (c.messageDrafts scope nodes) ++
    ((enumDrafts nodes).map EnumDraft.descriptor).flatMap (Declared.enum file scope)

theorem fullName_head {nest : List String} {head : Head} {kind : TypeKind} (hpackage : Rooted package)
    (hnest : head.nest = nest) :
    (⟨package, head.nameInPackage, file, kind⟩ : TypeRef).fullName =
      scopeOf package nest ++ "." ++ head.name := by
  rw [TypeRef.fullName, if_neg hpackage.ne_empty, ← scopeOf_concat, ← hnest]
  exact append_join package (by simp [Head.childNest])

include hpackage

mutual

theorem mem_names_object {nest : List String} : (node : ObjectNode) → node.StandsIn nest →
    ∀ t ∈ node.declared package file, (t.fullName, t.symbol) ∈
      Declared.message file (scopeOf package nest) (c.objectDraft (scopeOf package nest) node).descriptor
  | { head, properties, nested, entity, polymorphMember }, ⟨hnest, hnested⟩, t, ht => by
      have hscope := hpackage.scopeOf nest
      refine MessageDraft.mem_message _ hscope ?_
      rw [ObjectNode.declared] at ht
      rcases List.mem_cons.mp ht with rfl | ht
      · exact Or.inl (by rw [fullName_head hpackage hnest]; rfl)
      · refine Or.inr ?_
        rw [Head.childNest, hnest] at hnested
        have hmem := mem_names_schemas nested hnested t ht
        rw [scopeOf_concat, schemaNames, List.mem_append] at hmem
        rw [objectDraft, MessageDraft.names_append]
        exact hmem.imp (List.mem_append_right _) id

theorem mem_names_oneof {nest : List String} : (node : OneofNode) → node.StandsIn nest →
    ∀ t ∈ node.declared package file, (t.fullName, t.symbol) ∈
      Declared.message file (scopeOf package nest) (c.oneofDraft (scopeOf package nest) node).descriptor
  | { head, properties, nested, entity }, ⟨hnest, hnested⟩, t, ht => by
      have hscope := hpackage.scopeOf nest
      refine MessageDraft.mem_message _ hscope ?_
      rw [OneofNode.declared] at ht
      rcases List.mem_cons.mp ht with rfl | ht
      · exact Or.inl (by rw [fullName_head hpackage hnest]; rfl)
      · refine Or.inr ?_
        rw [Head.childNest, hnest] at hnested
        have hmem := mem_names_schemas nested hnested t ht
        rw [scopeOf_concat, schemaNames, List.mem_append] at hmem
        rw [oneofDraft, MessageDraft.names_append]
        exact hmem.imp (List.mem_append_right _) id

theorem mem_names_schemas {nest : List String} : (nodes : List SchemaNode) →
    SchemaNode.AllStandIn nest nodes → ∀ t ∈ SchemaNode.declaredList package file nodes,
      (t.fullName, t.symbol) ∈ c.schemaNames file (scopeOf package nest) nodes
  | [], _, t, ht => absurd ht List.not_mem_nil
  | .object node :: rest, ⟨hnode, hrest⟩, t, ht => by
      rw [SchemaNode.declaredList, SchemaNode.declared, List.mem_append] at ht
      rw [schemaNames, messageDrafts, MessageDraft.names, List.flatMap_cons, List.append_assoc,
        List.mem_append]
      exact ht.imp (mem_names_object node hnode t) (mem_names_schemas rest hrest t)
  | .oneof node :: rest, ⟨hnode, hrest⟩, t, ht => by
      rw [SchemaNode.declaredList, SchemaNode.declared, List.mem_append] at ht
      rw [schemaNames, messageDrafts, MessageDraft.names, List.flatMap_cons, List.append_assoc,
        List.mem_append]
      exact ht.imp (mem_names_oneof node hnode t) (mem_names_schemas rest hrest t)
  | .polymorph node :: rest, ⟨hnode, hrest⟩, t, ht => by
      rw [SchemaNode.declaredList, SchemaNode.declared, List.mem_append, List.mem_singleton] at ht
      rw [schemaNames, messageDrafts, MessageDraft.names, List.flatMap_cons, List.append_assoc,
        List.mem_append]
      refine ht.imp (fun ht => ?_) (mem_names_schemas rest hrest t)
      refine MessageDraft.mem_message _ (hpackage.scopeOf nest) (Or.inl ?_)
      rw [ht, fullName_head hpackage hnode]
      rfl
  | .enum node :: rest, ⟨hnode, hrest⟩, t, ht => by
      rw [SchemaNode.declaredList, SchemaNode.declared, List.mem_append, List.mem_singleton] at ht
      have henums : enumDrafts (.enum node :: rest) = enumDraft node :: enumDrafts rest := rfl
      rw [schemaNames, messageDrafts, henums, List.map_cons, List.flatMap_cons, List.mem_append,
        List.mem_append]
      rcases ht with rfl | ht
      · refine Or.inr (Or.inl (List.mem_cons.mpr (Or.inl ?_)))
        rw [fullName_head hpackage hnode, Declared.one]
        exact congrArg (fun name => (name, _)) ((hpackage.scopeOf nest).qualify _).symm
      · rcases List.mem_append.mp (mem_names_schemas rest hrest t ht) with hmem | hmem
        · exact Or.inl hmem
        · exact Or.inr (Or.inr hmem)

end

end Conversion

/-! ## Names of nested types -/

mutual

theorem ObjectNode.name_of_declared {package file : String} {nest : List String} :
    (node : ObjectNode) → node.StandsIn nest → ∀ t ∈ node.declared package file,
      t.package = package ∧ ∃ inner, inner ≠ [] ∧ t.name = Text.join "." (nest ++ inner)
  | { head, properties, nested, entity, polymorphMember }, ⟨hnest, hnested⟩, t, ht => by
      rw [ObjectNode.declared] at ht
      rcases List.mem_cons.mp ht with rfl | ht
      · exact ⟨rfl, [head.name], List.cons_ne_nil _ _, by rw [← hnest]; rfl⟩
      · obtain ⟨hpackage, inner, -, hname⟩ := SchemaNode.name_of_declared nested hnested t ht
        refine ⟨hpackage, head.name :: inner, List.cons_ne_nil _ _, ?_⟩
        rw [hname, Head.childNest, hnest, List.append_assoc, List.singleton_append]

theorem OneofNode.name_of_declared {package file : String} {nest : List String} :
    (node : OneofNode) → node.StandsIn nest → ∀ t ∈ node.declared package file,
      t.package = package ∧ ∃ inner, inner ≠ [] ∧ t.name = Text.join "." (nest ++ inner)
  | { head, properties, nested, entity }, ⟨hnest, hnested⟩, t, ht => by
      rw [OneofNode.declared] at ht
      rcases List.mem_cons.mp ht with rfl | ht
      · exact ⟨rfl, [head.name], List.cons_ne_nil _ _, by rw [← hnest]; rfl⟩
      · obtain ⟨hpackage, inner, -, hname⟩ := SchemaNode.name_of_declared nested hnested t ht
        refine ⟨hpackage, head.name :: inner, List.cons_ne_nil _ _, ?_⟩
        rw [hname, Head.childNest, hnest, List.append_assoc, List.singleton_append]

/-- A type belongs to the package, and its name is that of the schemas around it and more. -/
theorem SchemaNode.name_of_declared {package file : String} {nest : List String} :
    (nodes : List SchemaNode) → SchemaNode.AllStandIn nest nodes →
      ∀ t ∈ SchemaNode.declaredList package file nodes,
        t.package = package ∧ ∃ inner, inner ≠ [] ∧ t.name = Text.join "." (nest ++ inner)
  | [], _, t, ht => absurd ht List.not_mem_nil
  | .object node :: rest, ⟨hnode, hrest⟩, t, ht => by
      rw [SchemaNode.declaredList, SchemaNode.declared, List.mem_append] at ht
      exact ht.elim (ObjectNode.name_of_declared node hnode t) (SchemaNode.name_of_declared rest hrest t)
  | .oneof node :: rest, ⟨hnode, hrest⟩, t, ht => by
      rw [SchemaNode.declaredList, SchemaNode.declared, List.mem_append] at ht
      exact ht.elim (OneofNode.name_of_declared node hnode t) (SchemaNode.name_of_declared rest hrest t)
  | .polymorph node :: rest, ⟨hnode, hrest⟩, t, ht => by
      rw [SchemaNode.declaredList, SchemaNode.declared, List.mem_append, List.mem_singleton] at ht
      rcases ht with rfl | ht
      · exact ⟨rfl, [node.head.name], List.cons_ne_nil _ _, by rw [← hnode]; rfl⟩
      · exact SchemaNode.name_of_declared rest hrest t ht
  | .enum node :: rest, ⟨hnode, hrest⟩, t, ht => by
      rw [SchemaNode.declaredList, SchemaNode.declared, List.mem_append, List.mem_singleton] at ht
      rcases ht with rfl | ht
      · exact ⟨rfl, [node.head.name], List.cons_ne_nil _ _, by rw [← hnode]; rfl⟩
      · exact SchemaNode.name_of_declared rest hrest t ht

end

/-- Of the types of a payload only the payload itself has a name without a dot. -/
theorem ObjectNode.eq_of_declared {package file : String} {node : ObjectNode}
    (hnode : node.StandsIn []) {t : TypeRef} (ht : t ∈ node.declared package file)
    (hdot : '.' ∉ t.name.toList) : t = ⟨package, node.head.name, file, .object node.entity⟩ := by
  obtain ⟨head, properties, nested, entity, polymorphMember⟩ := node
  obtain ⟨hnest, hnested⟩ := hnode
  rw [declared] at ht
  rcases List.mem_cons.mp ht with rfl | ht
  · rw [Head.nameInPackage, Head.childNest, hnest]
    rfl
  · obtain ⟨-, inner, hinner, hname⟩ := SchemaNode.name_of_declared nested hnested t ht
    rw [hname] at hdot
    exact absurd (dot_mem_join (by simp [Head.childNest]) hinner) hdot

theorem ObjectNode.symbolKind_of_declared {package file : String} {node : ObjectNode}
    (hnode : node.StandsIn []) {t : TypeRef} (ht : t ∈ node.declared package file)
    (hdot : '.' ∉ t.name.toList) : t.kind.symbolKind = .message := by
  rw [node.eq_of_declared hnode ht hdot]
  rfl

/-! ## Files -/

/-- A file declares what its messages and enums declare. -/
theorem FileDraft.names_subset (d : FileDraft) :
    MessageDraft.names d.name d.package d.messages ++
      (d.enums.map EnumDraft.descriptor).flatMap (Declared.enum d.name d.package) ⊆
    Declared.names d.descriptor := by
  intro entry hentry
  have hnames : Declared.names d.descriptor =
      Declared.messages d.name d.package (MessageDraft.descriptors d.messages) ++
        (d.enums.map EnumDraft.descriptor).flatMap (Declared.enum d.name d.package) ++ [] ++
        (d.services.map ServiceDraft.descriptor).flatMap (Declared.service d.name d.package) := rfl
  rw [hnames, Declared.messages_eq, MessageDraft.descriptors_eq, List.flatMap_map]
  exact List.mem_append_left _ (List.mem_append_left _ hentry)

namespace Document

variable {d : Document}

/-- The types that a document declares in its files. -/
def types (d : Document) : List TypeRef :=
  d.nodes.flatMap d.payloadTypes ++
    SchemaNode.declaredList d.package (FileName.mainFile d.path) (RootNode.schemas d.nodes)

/-- The types of the main file. -/
def mainTypes (d : Document) : List TypeRef :=
  SchemaNode.declaredList d.package (FileName.mainFile d.path) (RootNode.schemas d.nodes)

theorem mem_types_of_declared {name : String} {t : TypeRef} (h : d.declared.get? name = some t) :
    t ∈ d.types ∧ t.name = name := by
  obtain ⟨t', ht', heq⟩ := List.mem_map.mp (Dict.mem_of_get?_ofList h)
  cases heq
  exact ⟨ht', rfl⟩

theorem schemas_standIn (d : Document) : SchemaNode.AllStandIn [] (RootNode.schemas d.nodes) :=
  SchemaNode.allStandIn_iff.mpr fun node hnode =>
    d.nodes_stand (.schema node) (RootNode.mem_schemas.mp hnode)

theorem package_of_mem_mainTypes {t : TypeRef} (ht : t ∈ d.mainTypes) : t.package = d.package :=
  (SchemaNode.name_of_declared _ d.schemas_standIn t ht).1

/-- The types of requests, responses and messages of topics have packages of their own. -/
theorem package_of_mem_payloadTypes {t : TypeRef} (ht : t ∈ d.nodes.flatMap d.payloadTypes) :
    t.package = d.servicePackage ∨ t.package = d.topicPackage := by
  obtain ⟨node, hnode, ht⟩ := List.mem_flatMap.mp ht
  have hstands := d.nodes_stand node hnode
  cases node with
  | schema node => cases ht
  | service node =>
      obtain ⟨object, hmem, ht⟩ := List.mem_flatMap.mp ht
      exact Or.inl (object.name_of_declared (hstands object hmem) t ht).1
  | topic node =>
      obtain ⟨object, hmem, ht⟩ := List.mem_flatMap.mp ht
      exact Or.inr (object.name_of_declared (hstands.2 object hmem) t ht).1

/-- Every type of a document is declared in one of its files. -/
theorem exists_draft_of_mem_types (hpackage : Rooted d.package) (c : Conversion) {t : TypeRef}
    (ht : t ∈ d.types) :
    ∃ draft ∈ d.drafts c d.nodes, (t.fullName, t.symbol) ∈ Declared.names draft.descriptor := by
  rcases List.mem_append.mp ht with ht | ht
  · obtain ⟨node, hnode, ht⟩ := List.mem_flatMap.mp ht
    have hstands := d.nodes_stand node hnode
    -- A payload is among the messages of the draft for its kind of node.
    have hobject : ∀ (draft : FileDraft) (package file : String) (object : ObjectNode),
        draft.package = package → draft.name = file → Rooted package →
        draft ∈ d.drafts c d.nodes → c.objectDraft package object ∈ draft.messages →
        object.StandsIn [] → t ∈ object.declared package file →
        ∃ draft ∈ d.drafts c d.nodes, (t.fullName, t.symbol) ∈ Declared.names draft.descriptor := by
      rintro draft _ _ object rfl rfl hrooted hdraft hmessage hstands ht
      refine ⟨draft, hdraft, draft.names_subset (List.mem_append_left _ ?_)⟩
      exact List.mem_flatMap.mpr ⟨_, hmessage, c.mem_names_object hrooted object hstands t ht⟩
    cases node with
    | schema node => cases ht
    | service node =>
        obtain ⟨object, hmem, ht⟩ := List.mem_flatMap.mp ht
        have hservice : node ∈ RootNode.services d.nodes := RootNode.mem_services.mpr hnode
        have hsome : ¬ (RootNode.services d.nodes).isEmpty = true := by
          rw [List.isEmpty_iff]
          exact List.ne_nil_of_mem hservice
        have hdraft := Option.mem_toList.mpr (if_neg hsome : d.serviceDraft? c _ = some _)
        refine hobject _ _ _ object rfl rfl ((hpackage.append ".").append _)
          (List.mem_cons_of_mem _ (List.mem_append_left _ hdraft)) ?_ (hstands object hmem) ht
        exact List.mem_map_of_mem (List.mem_flatMap_of_mem hservice hmem)
    | topic node =>
        obtain ⟨object, hmem, ht⟩ := List.mem_flatMap.mp ht
        have htopic : node ∈ RootNode.topics d.nodes := RootNode.mem_topics.mpr hnode
        have hsome : ¬ (RootNode.topics d.nodes).isEmpty = true := by
          rw [List.isEmpty_iff]
          exact List.ne_nil_of_mem htopic
        have hdraft := Option.mem_toList.mpr (if_neg hsome : d.topicDraft? c _ = some _)
        refine hobject _ _ _ object rfl rfl ((hpackage.append ".").append _)
          (List.mem_cons_of_mem _ (List.mem_append_right _ hdraft)) ?_ (hstands.2 object hmem) ht
        exact List.mem_map_of_mem (List.mem_flatMap_of_mem htopic hmem)
  · exact ⟨_, List.mem_cons_self, FileDraft.names_subset _
      (c.mem_names_schemas hpackage _ d.schemas_standIn t ht)⟩

end Document
end Schematic
