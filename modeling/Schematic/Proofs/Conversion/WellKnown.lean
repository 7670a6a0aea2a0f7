import Schematic.Proofs.Conversion.Links
import Schematic.Proofs.Conversion.Messages
import Schematic.Proofs.Node.Written

/-!
# Fields of well-known types

Some kinds of properties stand for a well-known type, and an entity writes properties of such types
itself.  Their names are looked up like those that authors write.  So the fields have these types,
unless an import has the name of a well-known package as its alias, or the document belongs to such
a package and one of its payloads has the name of the type.  Imports matter for nothing else but the
names that are written in the document.
-/

namespace Schematic

/-! ## Properties and what holds their values -/

/-- The properties of a message in turn, each with its field.  The values of a map are in the second
field of the next entry, which is what the field of the map refers to. -/
inductive PropertyNode.HeldIn (message : String) (R : PropertyNode → FieldDescriptor → Prop) :
    List PropertyNode → List FieldDescriptor → List MessageDescriptor → Prop
  | nil : HeldIn message R [] [] []
  | single {p : PropertyNode} {ps : List PropertyNode} {f : FieldDescriptor}
      {fs : List FieldDescriptor} {entries : List MessageDescriptor} (isMap : p.isMap = false)
      (shown : p.ShownBy f) (held : R p f) (rest : HeldIn message R ps fs entries) :
      HeldIn message R (p :: ps) (f :: fs) entries
  | map {p : PropertyNode} {ps : List PropertyNode} {f value : FieldDescriptor}
      {fs : List FieldDescriptor} {entry : MessageDescriptor} {entries : List MessageDescriptor}
      (isMap : p.isMap = true) (shown : p.ShownBy f)
      (typeName : f.typeName = some ("." ++ message ++ "." ++ entry.nameText))
      (second : entry.fields[1]? = some value) (held : R p value)
      (rest : HeldIn message R ps fs entries) :
      HeldIn message R (p :: ps) (f :: fs) (entry :: entries)

theorem PropertyNode.HeldIn.exists_field {message : String} {R : PropertyNode → FieldDescriptor → Prop}
    {ps : List PropertyNode} {fs : List FieldDescriptor} {entries : List MessageDescriptor}
    (h : HeldIn message R ps fs entries) {p : PropertyNode} (hp : p ∈ ps) (hsingle : p.isMap = false) :
    ∃ f ∈ fs, p.ShownBy f ∧ R p f := by
  induction h with
  | nil => cases hp
  | @single _ _ f _ _ _ shown held _ ih =>
      rcases List.mem_cons.mp hp with rfl | hp
      · exact ⟨f, List.mem_cons_self, shown, held⟩
      · obtain ⟨f', hf', hshown⟩ := ih hp
        exact ⟨f', List.mem_cons_of_mem _ hf', hshown⟩
  | map isMap _ _ _ _ _ ih =>
      rcases List.mem_cons.mp hp with rfl | hp
      · rw [hsingle] at isMap
        cases isMap
      · obtain ⟨f', hf', hshown⟩ := ih hp
        exact ⟨f', List.mem_cons_of_mem _ hf', hshown⟩

/-- A field holds messages of a type. -/
def FieldDescriptor.RefersTo (f : FieldDescriptor) (target : RefName) : Prop :=
  f.type = some FieldType.message ∧ f.typeName = some ("." ++ target.text)

/-- A message of a file of `package` stands where its schema does and holds the properties of the
schema.  What a polymorph holds can be anything. -/
inductive SchemaNode.HeldIn (package : String) (R : PropertyNode → FieldDescriptor → Prop) :
    SchemaNode → List String × MessageDescriptor → Prop
  | object {node : ObjectNode} {m : MessageDescriptor}
      (held : PropertyNode.HeldIn (scopeOf package node.head.childNest) R node.properties m.fields
        m.mapEntries) : HeldIn package R (.object node) (node.head.childNest, m)
  | oneof {node : OneofNode} {m : MessageDescriptor}
      (held : PropertyNode.HeldIn (scopeOf package node.head.childNest) R node.properties m.fields
        m.mapEntries) : HeldIn package R (.oneof node) (node.head.childNest, m)
  | polymorph {node : PolymorphNode} {m : MessageDescriptor} {f : FieldDescriptor}
      (fields : m.fields = [f]) (any : f.RefersTo WellKnown.any) :
      HeldIn package R (.polymorph node) (node.head.childNest, m)

namespace Conversion

variable {c : Conversion} {message : String} {oneof : Option Int} {ps : List PropertyNode}
  {parts : List FieldPart} {R : PropertyNode → FieldDescriptor → Prop}

/-- Only the type of a property's values matters for what holds them. -/
def Decides (c : Conversion) (R : PropertyNode → FieldDescriptor → Prop) : Prop :=
  ∀ p value f, c.valueType p.name p.field.item = .ok value → f.type = some value.code →
    f.typeName = value.typeName → R p f

theorem heldIn_of_yields (hR : c.Decides R) (h : List.Forall₂ (c.Yields message oneof) ps parts)
    (next : Nat) : PropertyNode.HeldIn message R ps (FieldPart.fieldsFrom next parts)
      ((parts.filterMap FieldPart.entry).map MessageDraft.descriptor) := by
  induction h generalizing next with
  | nil => exact .nil
  | @cons p part ps parts hpart _ ih =>
      obtain ⟨index, next', hfields⟩ := FieldPart.exists_fieldsFrom_cons next part parts
      have hshown : p.ShownBy { part.field with oneofIndex := index } :=
        ⟨hpart.shown.jsonName, hpart.shown.name, hpart.shown.number⟩
      obtain ⟨value, hvalue, hlaid⟩ := hpart.laidOut
      rw [hfields]
      cases hlaid with
      | single kind _ type typeName entry =>
          rw [List.filterMap_cons_none entry]
          exact .single (Bool.or_eq_false_iff.mp kind).2 hshown (hR p value _ hvalue type typeName)
            (ih next')
      | array _ isMap _ _ type typeName entry =>
          rw [List.filterMap_cons_none entry]
          exact .single isMap hshown (hR p value _ hvalue type typeName) (ih next')
      | map isMap _ _ _ typeName entry =>
          rw [List.filterMap_cons_some entry, List.map_cons]
          exact .map isMap hshown typeName rfl (hR p value (valueField "value" 2 value) hvalue rfl rfl)
            (ih next')

theorem Lays.heldIn (hR : c.Decides R) {oneofs : List OneofDescriptor} {m : MessageDescriptor}
    (h : c.Lays message oneof oneofs ps m parts) :
    PropertyNode.HeldIn message R ps m.fields m.mapEntries := by
  rw [h.fields, h.entries]
  exact heldIn_of_yields hR h.each _

theorem Makes.heldIn (hR : c.Decides R) {package : String} {node : SchemaNode}
    {placed : List String × MessageDescriptor} (h : c.Makes package node placed) :
    node.HeldIn package R placed := by
  cases h with
  | object laid => exact .object (laid.heldIn hR)
  | oneof laid => exact .oneof (laid.heldIn hR)
  | polymorph => exact .polymorph rfl ⟨rfl, rfl⟩

end Conversion

/-! ## Names of well-known types -/

/-- The well-known type that a field stands for or names. -/
def FieldNode.wellKnown? : FieldNode → Option RefName
  | .decimal _ => some WellKnown.decimal
  | .date _ => some WellKnown.date
  | .timestamp _ => some WellKnown.timestamp
  | .any _ => some WellKnown.any
  | .object target _ => if target ∈ WellKnown.names then some target else none
  | _ => none

namespace Document

variable {d : Document} {r : Resolver} {target : RefName}

/-- The package of a name stands for itself. -/
def Keeps (d : Document) (target : RefName) : Prop :=
  target.package = some (d.packageOf target)

/-- A payload has the name of a type in the document's package, and no schema has it. -/
def Shadows (d : Document) (target : RefName) : Prop :=
  target.package = some d.package ∧ (∃ t ∈ d.nodes.flatMap d.payloadTypes, t.name = target.schema) ∧
    ∀ t ∈ d.mainTypes, t.name ≠ target.schema

/-- Nothing in the document takes the name for itself. -/
def Spares (d : Document) (target : RefName) : Prop :=
  d.Keeps target ∧ ¬ d.Shadows target

theorem wellKnown_names : ∀ target ∈ WellKnown.names, ∃ package file,
    target.package = some package ∧ package ≠ "" ∧ '.' ∉ target.schema.toList ∧
      WellKnown.type? package target.schema = some ⟨package, target.schema, file, .object none⟩ := by
  have hall : ∀ entry ∈ WellKnown.files, entry.1.package = some (entry.1.package.getD "") ∧
      entry.1.package.getD "" ≠ "" ∧ '.' ∉ entry.1.schema.toList ∧
        WellKnown.type? (entry.1.package.getD "") entry.1.schema =
          some ⟨entry.1.package.getD "", entry.1.schema, entry.2, .object none⟩ := by decide +kernel
  intro target htarget
  obtain ⟨entry, hentry, rfl⟩ := List.mem_map.mp htarget
  exact ⟨_, _, hall entry hentry⟩

/-- What the document itself has under a name of its own package is a schema, if no payload takes the
name. -/
theorem package_of_not_shadows (h : ¬ d.Shadows target) (hpackage : target.package = some d.package)
    {t : TypeRef} (ht : d.declared.get? target.schema = some t) : t.package = d.package := by
  by_cases hmain : ∃ t' ∈ d.mainTypes, t'.name = target.schema
  · obtain ⟨t', ht', hname⟩ := hmain
    exact package_of_declared ht ht' hname
  · obtain ⟨hmem, hname⟩ := mem_types_of_declared ht
    rcases List.mem_append.mp hmem with hpayload | hschema
    · exact absurd ⟨hpackage, ⟨t, hpayload, hname⟩, fun t' ht' heq => hmain ⟨t', ht', heq⟩⟩ h
    · exact absurd ⟨t, hschema, hname⟩ hmain

/-- A well-known type is found, or a schema of the document that has its full name, if nothing takes
the name. -/
theorem lookup_wellKnown (htarget : target ∈ WellKnown.names) (h : d.Spares target) :
    ∃ t, (d.conversion r).lookup target = .ok t ∧ t.dottedName = "." ++ target.text := by
  obtain ⟨hkeeps, hshadows⟩ := h
  obtain ⟨package, file, hpackage, hne, -, htype⟩ := wellKnown_names target htarget
  have hof : (d.conversion r).packageOf target = package :=
    Option.some.inj (hkeeps.symm.trans hpackage)
  obtain ⟨t, hknown, htp, htn⟩ : ∃ t, (d.conversion r).known? target = some t ∧
      t.package = package ∧ t.name = target.schema := by
    rw [Conversion.known?, hof]
    cases hown : if package = (d.conversion r).package then
        (d.conversion r).declared.get? target.schema else none with
    | none => exact ⟨_, Option.none_or.trans htype, rfl, rfl⟩
    | some t =>
        split at hown
        · rename_i hsame
          refine ⟨t, Option.some_or, ?_, (mem_types_of_declared hown).2⟩
          rw [package_of_not_shadows hshadows (by rw [hpackage, hsame]; rfl) hown]
          exact hsame.symm
        · cases hown
  refine ⟨t, by rw [Conversion.lookup_eq, hknown], ?_⟩
  rw [TypeRef.dottedName, TypeRef.fullName, htp, htn, if_neg hne, RefName.text, hpackage]

/-- The values of a property are of the well-known type that it stands for or names. -/
def Typed (d : Document) (p : PropertyNode) (f : FieldDescriptor) : Prop :=
  ∀ target, p.field.item.wellKnown? = some target → d.Spares target → f.RefersTo target

theorem decides_typed : (d.conversion r).Decides d.Typed := by
  intro p value f hvalue htype htypeName target htarget hspares
  have hrefers : ∀ {t}, (d.conversion r).lookup target = .ok t → target ∈ WellKnown.names →
      value = .message t → f.RefersTo target := by
    intro t ht hmem heq
    obtain ⟨t', ht', hdotted⟩ := lookup_wellKnown (r := r) hmem hspares
    rw [ht] at ht'
    cases ht'
    rw [heq] at htype htypeName
    exact ⟨htype, htypeName.trans (congrArg some hdotted)⟩
  cases hf : p.field.item with
  | decimal _ | date _ | timestamp _ | any _ =>
      rw [hf] at hvalue htarget
      cases htarget
      obtain ⟨t, ht, h⟩ := bind_eq_ok hvalue
      cases h
      exact hrefers ht (by decide) rfl
  | object named flatten =>
      rw [hf] at hvalue htarget
      rw [FieldNode.wellKnown?] at htarget
      split at htarget
      · rename_i hmem
        cases htarget
        obtain ⟨t, ht, h⟩ := bind_eq_ok hvalue
        split at h
        · cases h
          exact hrefers ht hmem rfl
        · cases h
      · cases htarget
  | _ =>
      rw [hf] at htarget
      cases htarget

/-! ## Names that are taken -/

/-- Only an alias takes the name of a well-known package. -/
theorem keeps_of_no_alias (htarget : target ∈ WellKnown.names)
    (h : ∀ i ∈ d.imports, i.localName ≠ target.package) : d.Keeps target := by
  obtain ⟨entry, hentry, rfl⟩ := List.mem_map.mp htarget
  obtain ⟨package, -, hpackage, -⟩ := wellKnown_names _ htarget
  rw [hpackage] at h
  rw [Keeps, packageOf, hpackage]
  exact congrArg some (expand_of_no_alias (dot_mem_wellKnown entry hentry package hpackage) h).symm

/-- A payload whose name has no dot has a name that ends in what it is for. -/
theorem labelled_of_payloadType {t : TypeRef} (ht : t ∈ d.nodes.flatMap d.payloadTypes)
    (hdot : '.' ∉ t.name.toList) : Payload.Labelled t.name := by
  obtain ⟨root, hroot, ht⟩ := List.mem_flatMap.mp ht
  have hstands := d.nodes_stand root hroot
  have hpayload : ∃ object ∈ root.payloads, t.name = object.head.name := by
    cases root with
    | schema node => cases ht
    | service node =>
        obtain ⟨object, hobject, ht⟩ := List.mem_flatMap.mp ht
        refine ⟨object, hobject, ?_⟩
        rw [object.eq_of_declared (hstands object hobject) ht hdot]
    | topic node =>
        obtain ⟨object, hobject, ht⟩ := List.mem_flatMap.mp ht
        refine ⟨object, hobject, ?_⟩
        rw [object.eq_of_declared (hstands.2 object hobject) ht hdot]
  obtain ⟨object, hobject, hname⟩ := hpayload
  obtain ⟨element, -, nodes, hnodes, hmem⟩ := exists_element hroot
  obtain ⟨p, hp, span, hbuilds⟩ := exists_mem_of_forall₂ (Element.nodes_payloads hnodes)
    (List.mem_flatMap_of_mem hmem hobject)
  rw [hname, Build.name_of_payload hbuilds]
  exact Element.labelled_payloads p hp

/-- Payloads can take the names of three well-known types only. -/
theorem mem_of_shadows (htarget : target ∈ WellKnown.names) (h : d.Shadows target) :
    target ∈ [WellKnown.pageRequest, WellKnown.pageResponse, WellKnown.queryRequest] := by
  have hlabels : ∀ target ∈ WellKnown.names,
      (∃ ending ∈ ["Request", "Response", "Message"], ending.toList <:+ target.schema.toList) →
        target ∈ [WellKnown.pageRequest, WellKnown.pageResponse, WellKnown.queryRequest] := by
    decide +kernel
  obtain ⟨-, ⟨t, ht, hname⟩, -⟩ := h
  obtain ⟨-, -, -, -, hdot, -⟩ := wellKnown_names target htarget
  rw [← hname] at hdot
  refine hlabels target htarget ?_
  rw [← hname]
  exact labelled_of_payloadType ht hdot

/-! ## Imports -/

theorem plainAliases_of_ne (h : ∀ i ∈ d.imports, ∀ entry ∈ WellKnown.files,
    i.localName ≠ entry.1.package) : d.PlainAliases :=
  fun i hi _ hname entry hentry hpackage => h i hi entry hentry (hname.trans hpackage.symm)

/-- Other imports change nothing but what the names written in the document stand for. -/
theorem convert_of_imports {imports : List Import} (hplain : d.PlainAliases)
    (hplain' : { d with imports }.PlainAliases)
    (hpaths : imports.filterMap Import.path = d.imports.filterMap Import.path)
    (hwritten : ∀ t ∈ d.written,
      ({ d with imports }.conversion r).lookup t = (d.conversion r).lookup t) :
    { d with imports }.convert r = d.convert r := by
  refine convert_congr_imports (fun t ht => ?_) hpaths
  have hsame : { d with imports }.packageOf t = d.packageOf t →
      ({ d with imports }.conversion r).lookup t = (d.conversion r).lookup t := by
    intro hpackage
    have hpackage' : ({ d with imports }.conversion r).packageOf t = (d.conversion r).packageOf t :=
      hpackage
    have hknown : ({ d with imports }.conversion r).known? t = (d.conversion r).known? t := by
      rw [Conversion.known?, Conversion.known?, hpackage']
      rfl
    rw [Conversion.lookup_eq, Conversion.lookup_eq, hknown, hpackage']
    rfl
  rcases d.lookups_authored t ht with hnone | hknown | hmem
  · exact hsame (by rw [packageOf, packageOf, hnone])
  · refine hsame ?_
    obtain ⟨entry, hentry, rfl⟩ := List.mem_map.mp hknown
    obtain ⟨package, -, hpackage, -⟩ := wellKnown_names _ hknown
    rw [packageOf, packageOf, hpackage]
    exact (expand_wellKnown hplain' hentry hpackage).trans
      (expand_wellKnown hplain hentry hpackage).symm
  · exact hwritten t hmem

end Document

/-! ## Entities -/

theorem exists_mem_zip_of_forall₂ {α β : Type} {R : α → β → Prop} {as : List α} {bs : List β}
    (h : List.Forall₂ R as bs) {a : α} (ha : a ∈ as) : ∃ b, (a, b) ∈ as.zip bs ∧ R a b := by
  induction h with
  | nil => cases ha
  | @cons a' b' _ _ hab _ ih =>
      rcases List.mem_cons.mp ha with rfl | ha
      · exact ⟨b', List.mem_cons_self, hab⟩
      · obtain ⟨b, hb, hab⟩ := ih ha
        exact ⟨b, List.mem_cons_of_mem _ hb, hab⟩

theorem SchemaNode.mem_withinList {object : ObjectNode} {nodes : List SchemaNode}
    (h : .object object ∈ nodes) : .object object ∈ withinList nodes := by
  induction nodes with
  | nil => cases h
  | cons node rest ih =>
      rcases List.mem_cons.mp h with rfl | hrest
      · rw [withinList]
        cases object
        exact List.mem_append_left _ List.mem_cons_self
      · cases node with
        | object node | oneof node => exact List.mem_append_right _ (ih hrest)
        | polymorph node => exact List.mem_cons_of_mem _ (ih hrest)
        | enum node => exact ih hrest

/-- An object is a schema, or it is a payload. -/
def RootNode.Has (root : RootNode) (object : ObjectNode) : Prop :=
  root = .schema (.object object) ∨ object ∈ root.payloads

/-- What a well-known type is mentioned in is part of the entity. -/
theorem Entity.Expansion.has_of_mention {file : String} {decl : EntityDecl} (e : Expansion file decl) :
    ∀ m ∈ e.mentions, ∃ root ∈ e.roots, root.Has m.object := by
  have hstate : RootNode.schema (.object e.state) ∈ e.roots := by simp [roots]
  have hevent : RootNode.schema (.object e.event) ∈ e.roots := by simp [roots]
  have hquery : RootNode.service e.query ∈ e.roots := by simp [roots]
  have hpublish : RootNode.topic e.publish ∈ e.roots := by simp [roots]
  have hsummary : ∀ topic ∈ e.summaries, RootNode.topic topic ∈ e.roots := by
    intro topic htopic
    simp [roots, htopic]
  rw [mentions, List.forall_mem_append, List.forall_mem_append, List.forall_mem_append,
    List.forall_mem_cons, List.forall_mem_singleton, List.forall_mem_map, List.forall_mem_map]
  refine ⟨⟨⟨⟨⟨_, hstate, Or.inl rfl⟩, ⟨_, hevent, Or.inl rfl⟩⟩, fun m hm => ?_⟩,
    fun object hobject => ⟨_, hpublish, Or.inr hobject⟩⟩, fun object hobject => ?_⟩
  · obtain ⟨method, hmethod, hm⟩ := List.mem_flatMap.mp hm
    refine ⟨_, hquery, Or.inr (List.mem_flatMap.mpr ⟨method, hmethod, ?_⟩)⟩
    rw [pages] at hm
    split at hm
    · cases hm
    · simp only [List.mem_cons, List.not_mem_nil, or_false] at hm
      rcases hm with rfl | rfl | rfl
      · exact List.mem_cons_self
      · exact List.mem_cons_self
      · exact List.mem_cons_of_mem _ List.mem_cons_self
  · obtain ⟨topic, htopic, hobject⟩ := List.mem_flatMap.mp hobject
    exact ⟨_, hsummary topic htopic, Or.inr hobject⟩

namespace Document

variable {d : Document} {r : Resolver} {files : List FileDescriptor}

/-- Every object at the top of a node is among the schemas of a file. -/
theorem exists_fileNodes {root : RootNode} (hroot : root ∈ d.nodes) {object : ObjectNode}
    (h : root.Has object) : ∃ nodes ∈ d.fileNodes, .object object ∈ nodes.schemas := by
  rcases h with rfl | h
  · refine ⟨d.mainNodes, List.mem_cons_self, ?_⟩
    rw [FileNodes.schemas, mainNodes, SchemaNode.withinList_messages]
    exact SchemaNode.mem_withinList (RootNode.mem_schemas.mpr hroot)
  · cases root with
    | schema node => cases h
    | service node =>
        have hservice := RootNode.mem_services.mpr hroot
        have hsome : ¬ (RootNode.services d.nodes).isEmpty = true := by
          rw [List.isEmpty_iff]
          exact List.ne_nil_of_mem hservice
        refine ⟨d.serviceNodes, ?_, SchemaNode.mem_withinList ?_⟩
        · rw [fileNodes, if_neg hsome]
          exact List.mem_cons_of_mem _ List.mem_cons_self
        · rw [messages_serviceNodes]
          exact List.mem_map_of_mem (List.mem_flatMap_of_mem hservice h)
    | topic node =>
        have htopic := RootNode.mem_topics.mpr hroot
        have hsome : ¬ (RootNode.topics d.nodes).isEmpty = true := by
          rw [List.isEmpty_iff]
          exact List.ne_nil_of_mem htopic
        refine ⟨d.topicNodes, ?_, SchemaNode.mem_withinList ?_⟩
        · rw [fileNodes, if_neg hsome]
          exact List.mem_cons_of_mem _ (List.mem_append_right _ List.mem_cons_self)
        · rw [messages_topicNodes]
          exact List.mem_map_of_mem (List.mem_flatMap_of_mem htopic h)

theorem exists_expansion_of_mem (h : d.conversionErrors r = []) {decl : EntityDecl}
    (hdecl : .entity decl ∈ d.elements) :
    ∃ e : Entity.Expansion d.path decl, e.roots ⊆ d.nodes := by
  have hmem : Entity.expand d.path decl ∈ d.outcomes :=
    List.mem_map_of_mem (f := Element.nodes d.path) hdecl
  obtain ⟨nodes, hnodes⟩ := outcome_of_no_errors h _ hmem
  obtain ⟨e, rfl⟩ := Entity.exists_expansion hnodes
  rw [hnodes] at hmem
  exact ⟨e, fun root hroot => List.mem_flatMap.mpr ⟨_, hmem, hroot⟩⟩

/-- The messages of a file hold the properties of its schemas, well-known types under their names. -/
def TypedBy (d : Document) (nodes : FileNodes) (f : FileDescriptor) : Prop :=
  List.Forall₂ (SchemaNode.HeldIn nodes.package d.Typed) nodes.schemas f.placedMessages

/-- The field of a property that an entity writes itself refers to the well-known type. -/
def Shows (d : Document) (files : List FileDescriptor) (m : Entity.Mention) : Prop :=
  ∃ nodes f placed field, (nodes, f) ∈ d.fileNodes.zip files ∧
    (SchemaNode.object m.object, placed) ∈ nodes.schemas.zip f.placedMessages ∧
    field ∈ placed.2.fields ∧ field.jsonName = some m.property ∧ field.RefersTo m.target

theorem shows_of_mention (hheld : List.Forall₂ d.TypedBy d.fileNodes files)
    {decl : EntityDecl} {e : Entity.Expansion d.path decl} (hroots : e.roots ⊆ d.nodes)
    {m : Entity.Mention} (hm : m ∈ e.mentions) (hspares : d.Spares m.target) : d.Shows files m := by
  obtain ⟨hmem, p, hp, hname, hfield⟩ := e.mentions_stand m hm
  obtain ⟨root, hroot, hhas⟩ := e.has_of_mention m hm
  obtain ⟨nodes, hnodes, hobject⟩ := exists_fileNodes (hroots hroot) hhas
  obtain ⟨f, hf, hmessages⟩ := exists_mem_zip_of_forall₂ hheld hnodes
  obtain ⟨placed, hplaced, hheld⟩ := exists_mem_zip_of_forall₂ hmessages hobject
  cases hheld with
  | object held =>
      have hsingle : p.isMap = false := by
        rw [PropertyNode.isMap, hfield]
        rfl
      have htarget : p.field.item.wellKnown? = some m.target := by
        rw [hfield]
        exact if_pos hmem
      obtain ⟨field, hin, hshown, htyped⟩ := held.exists_field hp hsingle
      exact ⟨nodes, f, _, field, hf, hplaced, hin, by rw [hshown.jsonName, hname],
        htyped m.target htarget hspares⟩

/-- Properties of well-known kinds and those that entities write themselves refer to well-known types,
where nothing takes the names of these.  An alias can take the name of a package, and a payload that
of one of three types.  With plain aliases the imports matter only for the names that are written. -/
theorem convert_wellKnown (h : d.convert r = .ok files) :
    List.Forall₂ d.TypedBy d.fileNodes files ∧
    (∀ decl, .entity decl ∈ d.elements → ∃ e : Entity.Expansion d.path decl, e.roots ⊆ d.nodes ∧
      ∀ m ∈ e.mentions, d.Spares m.target → d.Shows files m) ∧
    (∀ target ∈ WellKnown.names,
      ((∀ i ∈ d.imports, i.localName ≠ target.package) → d.Keeps target) ∧
      (d.Shadows target →
        target ∈ [WellKnown.pageRequest, WellKnown.pageResponse, WellKnown.queryRequest])) ∧
    ∀ imports, d.PlainAliases → { d with imports }.PlainAliases →
      imports.filterMap Import.path = d.imports.filterMap Import.path →
      (∀ t ∈ d.written, ({ d with imports }.conversion r).lookup t = (d.conversion r).lookup t) →
      { d with imports }.convert r = d.convert r := by
  have hheld : List.Forall₂ d.TypedBy d.fileNodes files :=
    (convert_makes h).imp fun nodes f hmade => hmade.messages.imp fun _ _ hmakes =>
      hmakes.heldIn decides_typed
  refine ⟨hheld, fun decl hdecl => ?_, fun target htarget => ?_, fun imports => ?_⟩
  · obtain ⟨e, hroots⟩ := exists_expansion_of_mem (convert_eq_ok h).1 hdecl
    exact ⟨e, hroots, fun m => shows_of_mention hheld hroots⟩
  · exact ⟨keeps_of_no_alias htarget, mem_of_shadows htarget⟩
  · exact convert_of_imports

/-- A sheet has a total, days, times and a note.  An account is for an item in stock. -/
def accounts : Document where
  path := "a/v1/a.j5s"
  package := "a.v1"
  imports := [{ package := some "b.v1", localName := some "stock" }]
  elements :=
    [.object { name := "Sheet", properties :=
        [{ name := "total", schema := .decimal none },
         { name := "days", schema := .array (.date none) {} none },
         { name := "times", schema := .map (.timestamp none) {} },
         { name := "note", schema := .any {} }] },
     .entity account]
where
  account : EntityDecl :=
    { name := "account"
      keys := [{ name := "id", schema := .key {}, entityKey := some { primary := true } }]
      data := [{ name := "item", schema := .object (.named ⟨some "stock", "Item"⟩) false }]
      status := [{ name := "OPEN" }]
      events := [{ name := "opened" }]
      summaries := [{ name := "Balance" }] }

def accountTypes : TypeTable := ⟨[⟨"b.v1", "Item", "b/v1/b.proto", .object none⟩]⟩

/-- The item is found under the same name. -/
def accountImports : List Import :=
  [{ package := some "acme.protobuf.v1" }, { package := some "b.v1", localName := some "stock" }]

theorem convert_wellKnown_accounts : ∃ files,
    accounts.convert accountTypes.resolve = .ok files ∧
    (∀ target ∈ WellKnown.names, accounts.Spares target) ∧
    List.Forall₂ accounts.TypedBy accounts.fileNodes files ∧
    (∃ e : Entity.Expansion accounts.path accounts.account, e.roots ⊆ accounts.nodes ∧
      ∀ m ∈ e.mentions, accounts.Shows files m) ∧
    { accounts with imports := accountImports }.convert accountTypes.resolve = .ok files ∧
    (files.flatMap fun f => f.placedMessages.flatMap fun placed =>
      (placed.2.fields ++ placed.2.mapEntries.flatMap MessageDescriptor.fields).filterMap fun field =>
        (field.typeName.filter fun name => WellKnown.names.any fun target =>
          name == "." ++ target.text).map fun name => (placed.1, name)) =
      [(["Sheet"], ".j5.types.decimal.v1.Decimal"), (["Sheet"], ".j5.types.date.v1.Date"),
        (["Sheet"], ".j5.types.any.v1.Any"), (["Sheet"], ".google.protobuf.Timestamp"),
        (["AccountState"], ".j5.state.v1.StateMetadata"),
        (["AccountEvent"], ".j5.state.v1.EventMetadata"),
        (["AccountListRequest"], ".j5.list.v1.PageRequest"),
        (["AccountListRequest"], ".j5.list.v1.QueryRequest"),
        (["AccountListResponse"], ".j5.list.v1.PageResponse"),
        (["AccountEventsRequest"], ".j5.list.v1.PageRequest"),
        (["AccountEventsRequest"], ".j5.list.v1.QueryRequest"),
        (["AccountEventsResponse"], ".j5.list.v1.PageResponse"),
        (["AccountEventMessage"], ".j5.messaging.v1.EventPublishMetadata"),
        (["BalanceMessage"], ".j5.messaging.v1.UpsertMetadata")] := by
  obtain ⟨files, hconvert⟩ : ∃ files, accounts.convert accountTypes.resolve = .ok files :=
    exists_convert (by decide +kernel)
  obtain ⟨htyped, hentities, -, himports⟩ := convert_wellKnown hconvert
  have hplain : ∀ target ∈ WellKnown.names, (∀ i ∈ accounts.imports, i.localName ≠ target.package) ∧
      target.package ≠ some accounts.package := by decide
  have hspares : ∀ target ∈ WellKnown.names, accounts.Spares target := fun target htarget =>
    ⟨keeps_of_no_alias htarget (hplain target htarget).1,
      fun hshadows => (hplain target htarget).2 hshadows.1⟩
  obtain ⟨e, hroots, hshows⟩ := hentities accounts.account (List.mem_cons_of_mem _ List.mem_cons_self)
  have hsame := himports accountImports (plainAliases_of_ne (by decide))
    (plainAliases_of_ne (by decide)) rfl (by decide +kernel)
  obtain ⟨-, rfl⟩ := convert_eq_ok hconvert
  refine ⟨_, hconvert, hspares, htyped, ⟨e, hroots, fun m hm => ?_⟩, hsame.trans hconvert,
    by decide +kernel⟩
  exact hshows m hm (hspares m.target (e.mentions_stand m hm).wellKnown)

/-- The clocks of another package are imported under the name of a well-known package. -/
def clocks : Document where
  path := "foo/v1/foo.j5s"
  package := "foo.v1"
  imports := [{ package := some "acme.clock.v1", localName := some "google.protobuf" }]
  elements :=
    [.object { name := "Foo", properties := [{ name := "createdAt", schema := .timestamp none }] }]

def clockTypes : TypeTable :=
  ⟨[⟨"acme.clock.v1", "Timestamp", "acme/clock/v1/clock.proto", .object none⟩]⟩

/-- A method has the name of a page, in the package of the well-known pages. -/
def books : Document where
  path := "j5/list/v1/list.j5s"
  package := "j5.list.v1"
  elements :=
    [.service { name := some "Book", methods := [{ name := "Page" }] },
     .entity
      { name := "book"
        keys := [{ name := "id", schema := .key {}, entityKey := some { primary := true } }]
        status := [{ name := "OPEN" }]
        events := [{ name := "opened" }] }]

/-- An alias changes what a property of a well-known kind refers to, and a payload what a property
refers to that an entity writes. -/
theorem convert_taken_names :
    (∃ files, clocks.convert clockTypes.resolve = .ok files ∧ ¬ clocks.Keeps WellKnown.timestamp ∧
      (files.flatMap fun f => f.placedMessages.flatMap fun placed => placed.2.fields.map fun field =>
        (placed.1, field.jsonName, field.typeName)) =
          [(["Foo"], some "createdAt", some ".acme.clock.v1.Timestamp")]) ∧
    ∃ files, books.convert (TypeTable.resolve {}) = .ok files ∧ books.Shadows WellKnown.pageRequest ∧
      (files.flatMap fun f => f.placedMessages.flatMap fun placed =>
        (placed.2.fields.filter fun field => field.jsonName = some "page").map fun field =>
          (placed.1, field.typeName)) =
        [(["BookListRequest"], some ".j5.list.v1.service.PageRequest"),
          (["BookListResponse"], some ".j5.list.v1.service.PageResponse"),
          (["BookEventsRequest"], some ".j5.list.v1.service.PageRequest"),
          (["BookEventsResponse"], some ".j5.list.v1.service.PageResponse")] := by
  obtain ⟨files, hclocks⟩ : ∃ files, clocks.convert clockTypes.resolve = .ok files :=
    exists_convert (by decide +kernel)
  obtain ⟨files', hbooks⟩ : ∃ files, books.convert (TypeTable.resolve {}) = .ok files :=
    exists_convert (by decide +kernel)
  obtain ⟨-, rfl⟩ := convert_eq_ok hclocks
  obtain ⟨-, rfl⟩ := convert_eq_ok hbooks
  have hkeeps : ¬ clocks.Keeps WellKnown.timestamp := by
    rw [Keeps]
    decide +kernel
  have hshadows : books.Shadows WellKnown.pageRequest := by
    rw [Shadows]
    decide +kernel
  exact ⟨⟨_, hclocks, hkeeps, by decide +kernel⟩, _, hbooks, hshadows, by decide +kernel⟩

end Document
end Schematic
