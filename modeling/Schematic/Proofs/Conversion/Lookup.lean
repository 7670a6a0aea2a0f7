import Schematic.Conversion.File
import Schematic.Proofs.Package.Repository

/-!
# What a conversion looks up

A document names types in its fields and polymorphs that its objects belong to, and some kinds
of fields stand for a well-known type.  Nothing else is ever looked up, so that imports and
resolvers that agree on these names give the same files or the same errors.  A document
can be converted only if each of the names is found, and so its files stay what they
are when more types become known.
-/

namespace Schematic

/-! ## The names -/

/-- The types that a field looks up. -/
def FieldNode.lookups : FieldNode → List RefName
  | .decimal _ => [WellKnown.decimal]
  | .date _ => [WellKnown.date]
  | .timestamp _ => [WellKnown.timestamp]
  | .any _ => [WellKnown.any]
  | .enum target _ _ => [target]
  | .object target _ => [target]
  | .oneof target => [target]
  | .polymorph target => [target]
  | .array items _ _ => items.lookups
  | .map items _ => items.lookups
  | _ => []

def PropertyNode.lookups (properties : List PropertyNode) : List RefName :=
  properties.flatMap fun p => p.field.lookups

mutual

def ObjectNode.lookups : ObjectNode → List RefName
  | { properties, nested, polymorphMember, .. } =>
    polymorphMember.map Conversion.polymorphName ++ PropertyNode.lookups properties ++
      SchemaNode.lookupsList nested

def OneofNode.lookups : OneofNode → List RefName
  | { properties, nested, .. } => PropertyNode.lookups properties ++ SchemaNode.lookupsList nested

/-- The types that a schema and those nested in it look up. -/
def SchemaNode.lookups : SchemaNode → List RefName
  | .object node => node.lookups
  | .oneof node => node.lookups
  | .enum _ => []
  | .polymorph _ => []

def SchemaNode.lookupsList : List SchemaNode → List RefName
  | [] => []
  | node :: rest => node.lookups ++ SchemaNode.lookupsList rest

end

def RootNode.lookups : RootNode → List RefName
  | .schema node => node.lookups
  | .service node => node.objects.flatMap ObjectNode.lookups
  | .topic node => node.objects.flatMap ObjectNode.lookups

def Document.lookups (d : Document) : List RefName :=
  d.nodes.flatMap RootNode.lookups

/-- The package in which a document looks for a name. -/
def Document.packageOf (d : Document) (target : RefName) : String :=
  match target.package with
  | some qualifier => d.scope.expand qualifier
  | none => d.package

namespace Conversion

variable {c : Conversion} {r : Resolver}

/-! ## One name -/

/-- The package in which a name is looked for. -/
def packageOf (c : Conversion) (target : RefName) : String :=
  match target.package with
  | some qualifier => c.scope.expand qualifier
  | none => c.package

/-- What a name stands for when that is known without the resolver. -/
def known? (c : Conversion) (target : RefName) : Option TypeRef :=
  (if c.packageOf target = c.package then c.declared.get? target.schema else none).or
    (WellKnown.type? (c.packageOf target) target.schema)

theorem lookup_eq (c : Conversion) (target : RefName) :
    c.lookup target =
      match c.known? target with
      | some found => .ok found
      | none => (c.resolver (c.packageOf target) target.schema).mapError .unresolved := by
  rw [lookup]
  split
  next found hown =>
    have hknown : c.known? target = some found := congrArg₂ Option.or hown rfl
    rw [hknown]
  next found hown hbuiltin =>
    have hknown : c.known? target = some found := congrArg₂ Option.or hown hbuiltin
    rw [hknown]
  next hown hbuiltin =>
    have hknown : c.known? target = none := congrArg₂ Option.or hown hbuiltin
    rw [hknown]
    rfl

/-- A resolver counts only for a name that is not known without it. -/
theorem lookup_congr {target : RefName}
    (h : c.known? target = none →
      r (c.packageOf target) target.schema = c.resolver (c.packageOf target) target.schema) :
    { c with resolver := r }.lookup target = c.lookup target := by
  rw [lookup_eq, lookup_eq]
  have hknown : { c with resolver := r }.known? target = c.known? target := rfl
  rw [hknown]
  cases hfound : c.known? target with
  | some found => rfl
  | none => exact congrArg (Except.mapError ConvertError.unresolved) (h hfound)

/-- What was found with one resolver is found with another that knows more. -/
theorem lookup_of_more
    (hmore : ∀ package name t, c.resolver package name = .ok t → r package name = .ok t)
    {target : RefName} {found : TypeRef} (h : c.lookup target = .ok found) :
    { c with resolver := r }.lookup target = .ok found := by
  rw [lookup_eq] at h ⊢
  have hknown : { c with resolver := r }.known? target = c.known? target := rfl
  rw [hknown]
  cases hk : c.known? target with
  | some t =>
      rw [hk] at h
      exact h
  | none =>
      rw [hk] at h
      cases hr : c.resolver (c.packageOf target) target.schema with
      | error e =>
          rw [hr] at h
          cases h
      | ok t =>
          rw [hr] at h
          have hr' : r (c.packageOf target) target.schema = .ok t := hmore _ _ t hr
          exact (congrArg (Except.mapError ConvertError.unresolved) hr').trans h

/-! ## Agreement -/

variable {s : ImportScope}

/-- With the short names of `s` and the resolver `r` the same is found under the names. -/
def Agrees (c : Conversion) (s : ImportScope) (r : Resolver) (names : List RefName) : Prop :=
  ∀ t ∈ names, { c with scope := s, resolver := r }.lookup t = c.lookup t

theorem Agrees.mono {names names' : List RefName} (h : c.Agrees s r names) (hsub : names' ⊆ names) :
    c.Agrees s r names' :=
  fun t ht => h t (hsub ht)

theorem agrees_append {a b : List RefName} :
    c.Agrees s r (a ++ b) ↔ c.Agrees s r a ∧ c.Agrees s r b :=
  List.forall_mem_append

section Same

variable {c' : Conversion}

/-! A field is read through what its names stand for, so that two conversions that agree on these make
the same of it. -/

theorem valueType_congr {p : String} {f : FieldNode} (h : ∀ t ∈ f.lookups, c'.lookup t = c.lookup t) :
    c'.valueType p f = c.valueType p f := by
  cases f with
  | decimal _ | date _ | timestamp _ | any _ =>
      simp only [valueType, builtin, h _ List.mem_cons_self]
  | enum target _ _ => simp only [valueType, enumType, h target List.mem_cons_self]
  | object target _ | oneof target | polymorph target =>
      simp only [valueType, messageType, h target List.mem_cons_self]
  | _ => rfl

theorem itemType_congr {p outer : String} {f : FieldNode}
    (h : ∀ t ∈ f.lookups, c'.lookup t = c.lookup t) : c'.itemType p outer f = c.itemType p outer f := by
  cases f with
  | array _ _ _ | map _ _ => rfl
  | _ => exact valueType_congr (p := p) h

theorem layout_congr {message : String} {p : PropertyNode}
    (h : ∀ t ∈ p.field.lookups, c'.lookup t = c.lookup t) : c'.layout message p = c.layout message p := by
  unfold layout
  cases hf : p.field with
  | array items _ _ | map items _ =>
      rw [hf] at h
      simp only [itemType_congr (f := items) h]
  | _ =>
      rw [hf] at h
      simp only [valueType_congr h]

theorem property_congr {message : String} {oneof : Option Int} {p : PropertyNode}
    (h : ∀ t ∈ p.field.lookups, c'.lookup t = c.lookup t) :
    c'.property message oneof p = c.property message oneof p := by
  simp only [property, layout_congr h]

end Same

section Properties

variable {properties : List PropertyNode} (h : c.Agrees s r (PropertyNode.lookups properties))

include h

theorem agrees_of_mem {p : PropertyNode} (hp : p ∈ properties) : c.Agrees s r p.field.lookups :=
  h.mono fun _ ht => List.mem_flatMap_of_mem hp ht

theorem parts_congr (message : String) (oneof : Option Int) :
    { c with scope := s, resolver := r }.parts message oneof properties =
      c.parts message oneof properties :=
  List.filterMap_congr fun p hp => by simp only [property_congr (agrees_of_mem h hp)]

theorem propertyErrors_congr (oneof : Option Int) :
    { c with scope := s, resolver := r }.propertyErrors oneof properties =
      c.propertyErrors oneof properties :=
  List.filterMap_congr fun p hp => by
    simp only [property_congr (agrees_of_mem h hp)]
    rfl

theorem partImports_congr (oneof : Option Int) :
    { c with scope := s, resolver := r }.partImports oneof properties =
      c.partImports oneof properties := by
  rw [partImports, parts_congr h, partImports]

end Properties

theorem memberErrors_congr {head : Head} {polymorphs : List String}
    (h : c.Agrees s r (polymorphs.map polymorphName)) :
    { c with scope := s, resolver := r }.memberErrors head polymorphs =
      c.memberErrors head polymorphs :=
  List.filterMap_congr fun p hp => by
    simp only [checkMember, h _ (List.mem_map_of_mem hp)]
    rfl

/-! ## Schemas -/

mutual

theorem object_congr : (node : ObjectNode) → c.Agrees s r node.lookups →
    { c with scope := s, resolver := r }.objectErrors node = c.objectErrors node ∧
    (∀ outer, { c with scope := s, resolver := r }.objectDraft outer node = c.objectDraft outer node) ∧
    { c with scope := s, resolver := r }.objectImports node = c.objectImports node
  | { head, properties, nested, entity, polymorphMember }, h => by
      rw [ObjectNode.lookups, agrees_append, agrees_append] at h
      obtain ⟨⟨hmember, hprops⟩, hnested⟩ := h
      obtain ⟨herrors, hdrafts, himports⟩ := schemaList_congr nested hnested
      refine ⟨?_, fun outer => ?_, ?_⟩
      · rw [objectErrors, objectErrors, memberErrors_congr hmember, propertyErrors_congr hprops, herrors]
      · rw [objectDraft, objectDraft, parts_congr hprops, hdrafts]
      · rw [objectImports, objectImports, partImports_congr hprops, himports]

theorem oneof_congr : (node : OneofNode) → c.Agrees s r node.lookups →
    { c with scope := s, resolver := r }.oneofErrors node = c.oneofErrors node ∧
    (∀ outer, { c with scope := s, resolver := r }.oneofDraft outer node = c.oneofDraft outer node) ∧
    { c with scope := s, resolver := r }.oneofImports node = c.oneofImports node
  | { head, properties, nested, entity }, h => by
      rw [OneofNode.lookups, agrees_append] at h
      obtain ⟨hprops, hnested⟩ := h
      obtain ⟨herrors, hdrafts, himports⟩ := schemaList_congr nested hnested
      refine ⟨?_, fun outer => ?_, ?_⟩
      · rw [oneofErrors, oneofErrors, propertyErrors_congr hprops, herrors]
      · rw [oneofDraft, oneofDraft, parts_congr hprops, hdrafts]
      · rw [oneofImports, oneofImports, partImports_congr hprops, himports]

theorem schemaList_congr : (nodes : List SchemaNode) → c.Agrees s r (SchemaNode.lookupsList nodes) →
    { c with scope := s, resolver := r }.schemaErrorsList nodes = c.schemaErrorsList nodes ∧
    (∀ outer, { c with scope := s, resolver := r }.messageDrafts outer nodes =
      c.messageDrafts outer nodes) ∧
    { c with scope := s, resolver := r }.schemaImportsList nodes = c.schemaImportsList nodes
  | [], _ => ⟨rfl, fun _ => rfl, rfl⟩
  | .object node :: rest, h => by
      rw [SchemaNode.lookupsList, SchemaNode.lookups, agrees_append] at h
      obtain ⟨herrors, hdraft, himports⟩ := object_congr node h.1
      obtain ⟨herrors', hdrafts, himports'⟩ := schemaList_congr rest h.2
      simp only [schemaErrorsList, schemaErrors, messageDrafts, schemaImportsList, schemaImports,
        herrors, herrors', hdraft, hdrafts, himports, himports', implies_true, and_self]
  | .oneof node :: rest, h => by
      rw [SchemaNode.lookupsList, SchemaNode.lookups, agrees_append] at h
      obtain ⟨herrors, hdraft, himports⟩ := oneof_congr node h.1
      obtain ⟨herrors', hdrafts, himports'⟩ := schemaList_congr rest h.2
      simp only [schemaErrorsList, schemaErrors, messageDrafts, schemaImportsList, schemaImports,
        herrors, herrors', hdraft, hdrafts, himports, himports', implies_true, and_self]
  | .enum node :: rest, h => by
      rw [SchemaNode.lookupsList, agrees_append] at h
      obtain ⟨herrors, hdrafts, himports⟩ := schemaList_congr rest h.2
      simp only [schemaErrorsList, schemaErrors, messageDrafts, schemaImportsList, schemaImports,
        herrors, hdrafts, himports, implies_true, and_self]
  | .polymorph node :: rest, h => by
      rw [SchemaNode.lookupsList, agrees_append] at h
      obtain ⟨herrors, hdrafts, himports⟩ := schemaList_congr rest h.2
      simp only [schemaErrorsList, schemaErrors, messageDrafts, schemaImportsList, schemaImports,
        herrors, hdrafts, himports, implies_true, and_self]

end

theorem objects_congr {objects : List ObjectNode}
    (h : c.Agrees s r (objects.flatMap ObjectNode.lookups)) :
    objects.flatMap { c with scope := s, resolver := r }.objectErrors =
      objects.flatMap c.objectErrors ∧
    (∀ outer, objects.map ({ c with scope := s, resolver := r }.objectDraft outer) =
      objects.map (c.objectDraft outer)) ∧
    objects.flatMap { c with scope := s, resolver := r }.objectImports =
      objects.flatMap c.objectImports := by
  have hnode : ∀ node ∈ objects, c.Agrees s r node.lookups :=
    fun node hnode => h.mono fun _ ht => List.mem_flatMap_of_mem hnode ht
  refine ⟨List.flatMap_congr fun node h => ?_, fun outer => List.map_congr_left fun node h => ?_,
    List.flatMap_congr fun node h => ?_⟩
  · exact (object_congr node (hnode node h)).1
  · exact (object_congr node (hnode node h)).2.1 outer
  · exact (object_congr node (hnode node h)).2.2

theorem rootErrors_congr {node : RootNode} (h : c.Agrees s r node.lookups) :
    { c with scope := s, resolver := r }.rootErrors node = c.rootErrors node := by
  cases node with
  | schema node =>
      have hlist : c.Agrees s r (SchemaNode.lookupsList [node]) := by
        rw [SchemaNode.lookupsList, SchemaNode.lookupsList, List.append_nil]
        exact h
      simpa only [rootErrors, schemaErrorsList, List.append_nil] using (schemaList_congr [node] hlist).1
  | service node => exact (objects_congr h).1
  | topic node => exact (objects_congr h).1

end Conversion

/-! ## Documents -/

theorem SchemaNode.mem_lookupsList {nodes : List SchemaNode} {t : RefName} :
    t ∈ SchemaNode.lookupsList nodes ↔ ∃ node ∈ nodes, t ∈ node.lookups := by
  induction nodes with
  | nil => simp [SchemaNode.lookupsList]
  | cons node rest ih => simp [SchemaNode.lookupsList, ih]

namespace RootNode

variable {nodes : List RootNode}

theorem mem_schemas {node : SchemaNode} : node ∈ schemas nodes ↔ .schema node ∈ nodes := by
  simp only [schemas, List.mem_filterMap]
  constructor
  · rintro ⟨root, hroot, h⟩
    cases root <;> cases h
    exact hroot
  · exact fun h => ⟨_, h, rfl⟩

theorem mem_services {node : ServiceNode} : node ∈ services nodes ↔ .service node ∈ nodes := by
  simp only [services, List.mem_filterMap]
  constructor
  · rintro ⟨root, hroot, h⟩
    cases root <;> cases h
    exact hroot
  · exact fun h => ⟨_, h, rfl⟩

theorem mem_topics {node : TopicNode} : node ∈ topics nodes ↔ .topic node ∈ nodes := by
  simp only [topics, List.mem_filterMap]
  constructor
  · rintro ⟨root, hroot, h⟩
    cases root <;> cases h
    exact hroot
  · exact fun h => ⟨_, h, rfl⟩

end RootNode

theorem NodeError.mem_of_mem_upToFatal {α : Type} {l : List (Except NodeError α)}
    {x : Except NodeError α} (h : x ∈ NodeError.upToFatal l) : x ∈ l := by
  induction l with
  | nil => exact h
  | cons y rest ih =>
      cases y with
      | ok a =>
          rcases List.mem_cons.mp h with rfl | h
          · exact List.mem_cons_self
          · exact List.mem_cons_of_mem _ (ih h)
      | error e =>
          rcases List.mem_cons.mp h with rfl | h
          · exact List.mem_cons_self
          · split at h
            · cases h
            · exact List.mem_cons_of_mem _ (ih h)

namespace Document

variable {d : Document} {r r' : Resolver}

theorem mem_nodes_of_reach {nodes : List RootNode} (h : .ok nodes ∈ d.reach) {node : RootNode}
    (hnode : node ∈ nodes) : node ∈ d.nodes :=
  List.mem_flatMap.mpr ⟨_, NodeError.mem_of_mem_upToFatal h, hnode⟩

section Agreement

variable {c : Conversion} {s : ImportScope} (h : c.Agrees s r d.lookups)

include h

theorem agrees_of_mem {node : RootNode} (hnode : node ∈ d.nodes) : c.Agrees s r node.lookups :=
  h.mono fun _ ht => List.mem_flatMap_of_mem hnode ht

theorem mainDraft_congr :
    d.mainDraft { c with scope := s, resolver := r } (RootNode.schemas d.nodes) =
      d.mainDraft c (RootNode.schemas d.nodes) := by
  have hschemas : c.Agrees s r (SchemaNode.lookupsList (RootNode.schemas d.nodes)) := by
    intro t ht
    obtain ⟨node, hnode, ht⟩ := SchemaNode.mem_lookupsList.mp ht
    exact agrees_of_mem h (RootNode.mem_schemas.mp hnode) t ht
  obtain ⟨-, hmessages, himports⟩ := Conversion.schemaList_congr _ hschemas
  rw [mainDraft, himports, hmessages, mainDraft]

theorem serviceDraft?_congr :
    d.serviceDraft? { c with scope := s, resolver := r } (RootNode.services d.nodes) =
      d.serviceDraft? c (RootNode.services d.nodes) := by
  have hservice : ∀ node ∈ RootNode.services d.nodes,
      c.Agrees s r (node.objects.flatMap ObjectNode.lookups) :=
    fun node hnode => agrees_of_mem h (RootNode.mem_services.mp hnode)
  have himports :
      (RootNode.services d.nodes).flatMap { c with scope := s, resolver := r }.serviceImports =
      (RootNode.services d.nodes).flatMap c.serviceImports := by
    refine List.flatMap_congr fun node hnode => ?_
    rw [Conversion.serviceImports, Conversion.serviceImports]
    congr 1
    exact (Conversion.objects_congr (hservice node hnode)).2.2
  have hmessages : ((RootNode.services d.nodes).flatMap ServiceNode.objects).map
      ({ c with scope := s, resolver := r }.objectDraft d.servicePackage) =
      ((RootNode.services d.nodes).flatMap ServiceNode.objects).map
        (c.objectDraft d.servicePackage) := by
    refine (Conversion.objects_congr (c := c) ?_).2.1 d.servicePackage
    rw [List.flatMap_assoc]
    exact List.forall_mem_flatMap.mpr hservice
  rw [serviceDraft?, himports, hmessages, serviceDraft?]

theorem topicDraft?_congr :
    d.topicDraft? { c with scope := s, resolver := r } (RootNode.topics d.nodes) =
      d.topicDraft? c (RootNode.topics d.nodes) := by
  have htopic : ∀ node ∈ RootNode.topics d.nodes,
      c.Agrees s r (node.objects.flatMap ObjectNode.lookups) :=
    fun node hnode => agrees_of_mem h (RootNode.mem_topics.mp hnode)
  have himports :
      (RootNode.topics d.nodes).flatMap { c with scope := s, resolver := r }.topicImports =
      (RootNode.topics d.nodes).flatMap c.topicImports := by
    refine List.flatMap_congr fun node hnode => ?_
    rw [Conversion.topicImports, Conversion.topicImports]
    congr 2
    exact (Conversion.objects_congr (htopic node hnode)).2.2
  have hmessages : ((RootNode.topics d.nodes).flatMap TopicNode.objects).map
      ({ c with scope := s, resolver := r }.objectDraft d.topicPackage) =
      ((RootNode.topics d.nodes).flatMap TopicNode.objects).map
        (c.objectDraft d.topicPackage) := by
    refine (Conversion.objects_congr (c := c) ?_).2.1 d.topicPackage
    rw [List.flatMap_assoc]
    exact List.forall_mem_flatMap.mpr htopic
  rw [topicDraft?, himports, hmessages, topicDraft?]

end Agreement

section Imports

variable {imports : List Import}

theorem conversionErrors_congr
    (h : (d.conversion r).Agrees { d with imports }.scope r' d.lookups) :
    { d with imports }.conversionErrors r' = d.conversionErrors r := by
  refine List.flatMap_congr fun outcome houtcome => ?_
  cases outcome with
  | error e => rfl
  | ok nodes =>
      refine List.flatMap_congr fun node hnode => ?_
      exact Conversion.rootErrors_congr (agrees_of_mem h (mem_nodes_of_reach houtcome hnode))

theorem drafts_congr {c : Conversion} {s : ImportScope} (h : c.Agrees s r d.lookups)
    (hpaths : imports.filterMap Import.path = d.imports.filterMap Import.path) :
    { d with imports }.drafts { c with scope := s, resolver := r } d.nodes = d.drafts c d.nodes := by
  have hmain : { d with imports }.mainDraft { c with scope := s, resolver := r }
      (RootNode.schemas d.nodes) = d.mainDraft c (RootNode.schemas d.nodes) := mainDraft_congr h
  have hservice : { d with imports }.serviceDraft? { c with scope := s, resolver := r }
      (RootNode.services d.nodes) = d.serviceDraft? c (RootNode.services d.nodes) :=
    serviceDraft?_congr h
  have htopic : { d with imports }.topicDraft? { c with scope := s, resolver := r }
      (RootNode.topics d.nodes) = d.topicDraft? c (RootNode.topics d.nodes) := topicDraft?_congr h
  rw [drafts, drafts, hmain, hservice, htopic]
  simp only [idleImports, hpaths]

/-- A document is converted alike with other imports and another resolver if it imports the same
files by path, and all its names stand for what they stood for. -/
theorem convert_congr_imports
    (h : (d.conversion r).Agrees { d with imports }.scope r' d.lookups)
    (hpaths : imports.filterMap Import.path = d.imports.filterMap Import.path) :
    { d with imports }.convert r' = d.convert r := by
  have hdrafts : { d with imports }.drafts ({ d with imports }.conversion r') { d with imports }.nodes =
      d.drafts (d.conversion r) d.nodes := drafts_congr h hpaths
  rw [convert, convert, conversionErrors_congr h, hdrafts]

end Imports

/-- Resolvers that agree on the names of a document convert it alike. -/
theorem convert_congr (h : (d.conversion r).Agrees d.scope r' d.lookups) :
    d.convert r' = d.convert r :=
  convert_congr_imports h rfl

end Document

/-! ## What is found -/

namespace Conversion

variable {c : Conversion}

/-- Every one of the names stands for a type. -/
def Finds (c : Conversion) (names : List RefName) : Prop :=
  ∀ t ∈ names, ∃ found, c.lookup t = .ok found

theorem finds_append {a b : List RefName} : c.Finds (a ++ b) ↔ c.Finds a ∧ c.Finds b :=
  List.forall_mem_append

theorem finds_singleton {t : RefName} {found : TypeRef} (h : c.lookup t = .ok found) :
    c.Finds [t] := by
  rintro _ ⟨⟩
  · exact ⟨found, h⟩
  · contradiction

theorem finds_of_valueType {p : String} {f : FieldNode} {v : ValueType}
    (h : c.valueType p f = .ok v) : c.Finds f.lookups := by
  cases f with
  | decimal _ | date _ | timestamp _ | any _ =>
      obtain ⟨found, hfound, -⟩ := bind_eq_ok h
      exact finds_singleton hfound
  | enum target _ _ | object target _ | oneof target | polymorph target =>
      obtain ⟨found, hfound, -⟩ := bind_eq_ok h
      exact finds_singleton hfound
  | array _ _ _ | map _ _ => cases h
  | _ => exact fun _ ht => absurd ht List.not_mem_nil

theorem finds_of_itemType {p outer : String} {f : FieldNode} {v : ValueType}
    (h : c.itemType p outer f = .ok v) : c.Finds f.lookups := by
  cases f with
  | array _ _ _ | map _ _ => cases h
  | _ => exact finds_of_valueType (p := p) h

theorem finds_of_layout {message : String} {p : PropertyNode} {l : Layout}
    (h : c.layout message p = .ok l) : c.Finds p.field.lookups := by
  unfold layout at h
  cases hf : p.field with
  | array items _ _ | map items _ =>
      simp only [hf] at h
      split at h
      · cases h
      · obtain ⟨v, hv, -⟩ := bind_eq_ok h
        exact finds_of_itemType (f := items) hv
  | _ =>
      simp only [hf] at h
      obtain ⟨v, hv, -⟩ := bind_eq_ok h
      exact finds_of_valueType hv

theorem finds_of_property {message : String} {oneof : Option Int} {p : PropertyNode}
    {part : FieldPart} (h : c.property message oneof p = .ok part) : c.Finds p.field.lookups := by
  unfold property at h
  split at h
  · cases h
  · obtain ⟨l, hl, -⟩ := bind_eq_ok h
    exact finds_of_layout hl

theorem property_of_no_errors {oneof : Option Int} {properties : List PropertyNode}
    (h : c.propertyErrors oneof properties = []) {p : PropertyNode} (hp : p ∈ properties) :
    ∃ part, c.property "" oneof p = .ok part := by
  have hp' := List.filterMap_eq_nil_iff.mp h p hp
  cases hpart : c.property "" oneof p with
  | ok part => exact ⟨part, rfl⟩
  | error e =>
      rw [hpart] at hp'
      cases hp'

theorem finds_of_propertyErrors {oneof : Option Int} {properties : List PropertyNode}
    (h : c.propertyErrors oneof properties = []) : c.Finds (PropertyNode.lookups properties) := by
  refine List.forall_mem_flatMap.mpr fun p hp => ?_
  obtain ⟨part, hpart⟩ := property_of_no_errors h hp
  exact finds_of_property hpart

theorem finds_of_memberErrors {head : Head} {polymorphs : List String}
    (h : c.memberErrors head polymorphs = []) : c.Finds (polymorphs.map polymorphName) := by
  intro t ht
  obtain ⟨polymorph, hp, rfl⟩ := List.mem_map.mp ht
  have hp' := List.filterMap_eq_nil_iff.mp h polymorph hp
  cases hcheck : c.checkMember head polymorph with
  | error e =>
      rw [hcheck] at hp'
      cases hp'
  | ok _ =>
      obtain ⟨found, hfound, -⟩ := bind_eq_ok hcheck
      exact ⟨found, hfound⟩

mutual

theorem finds_of_objectErrors : (node : ObjectNode) → c.objectErrors node = [] →
    c.Finds node.lookups
  | { head, properties, nested, entity, polymorphMember }, h => by
      rw [objectErrors, List.append_eq_nil_iff, List.append_eq_nil_iff] at h
      rw [ObjectNode.lookups, finds_append, finds_append]
      exact ⟨⟨finds_of_memberErrors h.1.1, finds_of_propertyErrors h.1.2⟩,
        finds_of_schemaErrors nested h.2⟩

theorem finds_of_oneofErrors : (node : OneofNode) → c.oneofErrors node = [] →
    c.Finds node.lookups
  | { head, properties, nested, entity }, h => by
      rw [oneofErrors, List.append_eq_nil_iff] at h
      rw [OneofNode.lookups, finds_append]
      exact ⟨finds_of_propertyErrors h.1, finds_of_schemaErrors nested h.2⟩

theorem finds_of_schemaErrors : (nodes : List SchemaNode) → c.schemaErrorsList nodes = [] →
    c.Finds (SchemaNode.lookupsList nodes)
  | [], _ => fun _ ht => absurd ht List.not_mem_nil
  | .object node :: rest, h => by
      rw [schemaErrorsList, schemaErrors, List.append_eq_nil_iff] at h
      rw [SchemaNode.lookupsList, SchemaNode.lookups, finds_append]
      exact ⟨finds_of_objectErrors node h.1, finds_of_schemaErrors rest h.2⟩
  | .oneof node :: rest, h => by
      rw [schemaErrorsList, schemaErrors, List.append_eq_nil_iff] at h
      rw [SchemaNode.lookupsList, SchemaNode.lookups, finds_append]
      exact ⟨finds_of_oneofErrors node h.1, finds_of_schemaErrors rest h.2⟩
  | .enum node :: rest, h => by
      rw [schemaErrorsList, List.append_eq_nil_iff] at h
      rw [SchemaNode.lookupsList, SchemaNode.lookups, List.nil_append]
      exact finds_of_schemaErrors rest h.2
  | .polymorph node :: rest, h => by
      rw [schemaErrorsList, List.append_eq_nil_iff] at h
      rw [SchemaNode.lookupsList, SchemaNode.lookups, List.nil_append]
      exact finds_of_schemaErrors rest h.2

end

theorem finds_of_rootErrors {node : RootNode} (h : c.rootErrors node = []) :
    c.Finds node.lookups := by
  cases node with
  | schema node =>
      have hlist := finds_of_schemaErrors (c := c) [node]
      simp only [schemaErrorsList, List.append_nil, SchemaNode.lookupsList] at hlist
      exact hlist h
  | service node | topic node =>
      refine List.forall_mem_flatMap.mpr fun object hobject => ?_
      exact finds_of_objectErrors object (List.flatMap_eq_nil_iff.mp h object hobject)

end Conversion

theorem NodeError.upToFatal_of_ok {α : Type} {l : List (Except NodeError α)}
    (h : ∀ e, .error e ∉ NodeError.upToFatal l) : NodeError.upToFatal l = l := by
  induction l with
  | nil => rfl
  | cons y rest ih =>
      cases y with
      | ok a =>
          rw [upToFatal] at h ⊢
          rw [ih fun e he => h e (List.mem_cons_of_mem _ he)]
      | error e => exact absurd List.mem_cons_self (h e)

namespace Document

variable {d : Document} {r r' : Resolver}

/-- A document without errors is walked to its end. -/
theorem reach_of_no_errors (h : d.conversionErrors r = []) : d.reach = d.outcomes := by
  refine NodeError.upToFatal_of_ok fun e he => ?_
  have := List.flatMap_eq_nil_iff.mp h _ he
  cases this

theorem rootErrors_of_no_errors (h : d.conversionErrors r = []) {node : RootNode}
    (hnode : node ∈ d.nodes) : (d.conversion r).rootErrors node = [] := by
  obtain ⟨outcome, houtcome, hnode⟩ := List.mem_flatMap.mp hnode
  rw [← reach_of_no_errors h] at houtcome
  cases outcome with
  | error e => cases hnode
  | ok nodes =>
      have hnodes := List.flatMap_eq_nil_iff.mp h _ houtcome
      exact List.flatMap_eq_nil_iff.mp hnodes node hnode

theorem convert_eq_ok {files : List FileDescriptor} (h : d.convert r = .ok files) :
    d.conversionErrors r = [] ∧
      files = (d.drafts (d.conversion r) d.nodes).map FileDraft.descriptor := by
  simp only [convert] at h
  split at h
  · rename_i hempty
    cases h
    exact ⟨List.isEmpty_iff.mp hempty, rfl⟩
  · cases h

theorem exists_convert (h : (d.conversionErrors r).isEmpty = true) :
    ∃ files, d.convert r = .ok files :=
  ⟨_, if_pos h⟩

theorem finds_of_convert {files : List FileDescriptor} (h : d.convert r = .ok files) :
    (d.conversion r).Finds d.lookups :=
  List.forall_mem_flatMap.mpr fun _ hnode =>
    Conversion.finds_of_rootErrors (rootErrors_of_no_errors (convert_eq_ok h).1 hnode)

/-- The files of a document stay as they are when more types become known. -/
theorem convert_of_more (hmore : ∀ package name t, r package name = .ok t → r' package name = .ok t)
    {files : List FileDescriptor} (h : d.convert r = .ok files) : d.convert r' = .ok files := by
  rw [← h]
  refine convert_congr fun t ht => ?_
  obtain ⟨found, hfound⟩ := finds_of_convert h t ht
  rw [hfound]
  exact Conversion.lookup_of_more (c := d.conversion r) hmore hfound

end Document
end Schematic
