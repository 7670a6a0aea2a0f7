import Schematic.Proofs.Conversion.Elements
import Schematic.Proofs.Conversion.Imports
import Schematic.Proofs.Node.Owner

/-!
# Schemas declared in place

A schema declared in place of a property becomes a message or an enum inside the message that has
the property, and the field of the property has it as its type.  In the main file this is always so.
A request, a response or the message of a topic stands in a package of its own, but the names in it
are looked up among all types of the document, and there a type of another package may have the same
name.
-/

namespace Schematic

/-! ## Properties and their fields -/

/-- Properties in turn, each with its field.  The values of a map are those of the next entry. -/
def HeldBy {α : Type} (isMap : α → Bool) (fits : α → Option String → Option String → Prop) :
    List α → List FieldDescriptor → List MessageDescriptor → Prop
  | [], _, _ => True
  | _ :: _, [], _ => False
  | p :: ps, f :: fs, entries =>
    if isMap p then
      ∃ entry value, entries.head? = some entry ∧ entry.fields[1]? = some value ∧
        fits p f.jsonName value.typeName ∧ HeldBy isMap fits ps fs entries.tail
    else fits p f.jsonName f.typeName ∧ HeldBy isMap fits ps fs entries

namespace HeldBy

variable {α : Type} {isMap : α → Bool} {fits : α → Option String → Option String → Prop}

theorem cons_map {p : α} {ps : List α} {f : FieldDescriptor} {fs : List FieldDescriptor}
    {entries : List MessageDescriptor} (h : isMap p = true) :
    HeldBy isMap fits (p :: ps) (f :: fs) entries ↔
      ∃ entry value, entries.head? = some entry ∧ entry.fields[1]? = some value ∧
        fits p f.jsonName value.typeName ∧ HeldBy isMap fits ps fs entries.tail := by
  rw [HeldBy, if_pos h]

theorem cons_single {p : α} {ps : List α} {f : FieldDescriptor} {fs : List FieldDescriptor}
    {entries : List MessageDescriptor} (h : isMap p = false) :
    HeldBy isMap fits (p :: ps) (f :: fs) entries ↔
      fits p f.jsonName f.typeName ∧ HeldBy isMap fits ps fs entries := by
  rw [HeldBy, if_neg (by rw [h]; exact Bool.false_ne_true)]

/-- Of a field only its name and its type matter. -/
theorem congr {ps : List α} {fs fs' : List FieldDescriptor} {entries : List MessageDescriptor}
    (h : fs.map (fun f => (f.jsonName, f.typeName)) = fs'.map fun f => (f.jsonName, f.typeName))
    (hheld : HeldBy isMap fits ps fs entries) : HeldBy isMap fits ps fs' entries := by
  induction ps generalizing fs fs' entries with
  | nil => trivial
  | cons p ps ih =>
      cases fs with
      | nil => exact hheld.elim
      | cons f fs =>
          cases fs' with
          | nil => cases h
          | cons f' fs' =>
              obtain ⟨hf, hfs⟩ := List.cons.inj h
              obtain ⟨hname, htype⟩ := Prod.mk.inj hf
              cases hmap : isMap p with
              | false =>
                  rw [cons_single hmap] at hheld ⊢
                  rw [← hname, ← htype]
                  exact ⟨hheld.1, ih hfs hheld.2⟩
              | true =>
                  rw [cons_map hmap] at hheld ⊢
                  obtain ⟨entry, value, hentry, hvalue, hfits, hrest⟩ := hheld
                  rw [← hname]
                  exact ⟨entry, value, hentry, hvalue, hfits, ih hfs hrest⟩

end HeldBy

/-! ## Messages of a file -/

def PlacedElement.message? : PlacedElement → Option (List String × MessageDescriptor)
  | (path, .message m) => some (path, m)
  | (_, .enum _) => none

/-- The messages of a file with the names that lead to them, outer ones first. -/
def FileDescriptor.placedMessages (f : FileDescriptor) : List (List String × MessageDescriptor) :=
  f.elements.filterMap PlacedElement.message?

def MessageDescriptor.mapEntries (m : MessageDescriptor) : List MessageDescriptor :=
  m.nested.filter MessageDescriptor.isMapEntry

/-! ## Types of fields -/

namespace Conversion

variable {c : Conversion}

/-- A field has the name of its property and, if the property names a schema, the type that is
found under that name. -/
def Fits (c : Conversion) (n : PropertyNode) (jsonName typeName : Option String) : Prop :=
  jsonName = some n.name ∧ ∀ target, n.field.target? = some target →
    ∃ found, c.lookup target = .ok found ∧ typeName = some found.dottedName

theorem valueType_target {property : String} {f : FieldNode} {value : ValueType}
    (h : c.valueType property f = .ok value) {target : RefName} (htarget : f.target? = some target) :
    ∃ found, c.lookup target = .ok found ∧ value.typeName = some found.dottedName := by
  cases f with
  | enum t rules r =>
      cases htarget
      obtain ⟨found, hfound, h⟩ := bind_eq_ok h
      split at h
      · cases h
        exact ⟨found, hfound, rfl⟩
      · cases h
  | object t flatten =>
      cases htarget
      obtain ⟨found, hfound, h⟩ := bind_eq_ok h
      split at h
      · cases h
        exact ⟨found, hfound, rfl⟩
      · cases h
  | oneof t | polymorph t =>
      cases htarget
      obtain ⟨found, hfound, h⟩ := bind_eq_ok h
      split at h
      · cases h
        exact ⟨found, hfound, rfl⟩
      · cases h
  | array items rules single => cases h
  | map items rules => cases h
  | _ => cases htarget

theorem valueType_of_itemType {property outer : String} {f : FieldNode} {value : ValueType}
    (h : c.itemType property outer f = .ok value) : c.valueType property f = .ok value := by
  cases f with
  | array _ _ _ | map _ _ => cases h
  | _ => exact h

/-- The part of a property: its field, and for a map the entry that holds its values. -/
theorem property_fits {message : String} {oneof : Option Int} {n : PropertyNode} {part : FieldPart}
    (h : c.property message oneof n = .ok part) :
    if n.isMap then
      ∃ entry value, part.entry = some entry ∧ entry.descriptor.fields[1]? = some value ∧
        c.Fits n part.field.jsonName value.typeName
    else part.entry = none ∧ c.Fits n part.field.jsonName part.field.typeName := by
  unfold property at h
  split at h
  · cases h
  · obtain ⟨l, hl, h⟩ := bind_eq_ok h
    obtain ⟨⟨options, files⟩, -, h⟩ := bind_eq_ok h
    cases h
    unfold layout at hl
    rw [PropertyNode.isMap]
    cases hf : n.field with
    | map items rules =>
        simp only [hf] at hl
        split at hl
        · cases hl
        · obtain ⟨value, hvalue, hl⟩ := bind_eq_ok hl
          cases hl
          refine ⟨_, valueField "value" 2 value, rfl, rfl, rfl, fun target htarget => ?_⟩
          rw [hf] at htarget
          exact valueType_target (valueType_of_itemType hvalue) htarget
    | array items rules single =>
        simp only [hf] at hl
        split at hl
        · cases hl
        · obtain ⟨value, hvalue, hl⟩ := bind_eq_ok hl
          cases hl
          refine ⟨rfl, rfl, fun target htarget => ?_⟩
          rw [hf] at htarget
          exact valueType_target (valueType_of_itemType hvalue) htarget
    | _ =>
        simp only [hf] at hl
        obtain ⟨value, hvalue, hl⟩ := bind_eq_ok hl
        cases hl
        refine ⟨rfl, rfl, fun target htarget => ?_⟩
        rw [hf] at htarget
        exact valueType_target hvalue htarget

theorem parts_cons {message : String} {oneof : Option Int} {n : PropertyNode} {part : FieldPart}
    (h : c.property message oneof n = .ok part) (ns : List PropertyNode) :
    c.parts message oneof (n :: ns) = (n, part) :: c.parts message oneof ns := by
  rw [parts, List.filterMap_cons_some (b := (n, part)) (by simp only [h])]
  rfl

/-- Properties without errors are held by their fields. -/
theorem heldBy_parts {message : String} {oneof : Option Int} {ns : List PropertyNode}
    (h : ∀ n ∈ ns, ∃ part, c.property message oneof n = .ok part) :
    HeldBy PropertyNode.isMap c.Fits ns
      ((fields (c.parts message oneof ns)).map Described.element)
      (MessageDraft.descriptors (entries (c.parts message oneof ns))) := by
  induction ns with
  | nil => trivial
  | cons n ns ih =>
      obtain ⟨part, hpart⟩ := h n List.mem_cons_self
      have hrest := ih fun n hn => h n (List.mem_cons_of_mem _ hn)
      have hfits := property_fits hpart
      rw [parts_cons hpart]
      cases hmap : n.isMap with
      | true =>
          rw [if_pos hmap] at hfits
          obtain ⟨entry, value, hentry, hvalue, hfits⟩ := hfits
          have hentries : entries ((n, part) :: c.parts message oneof ns) =
              entry :: entries (c.parts message oneof ns) := by
            simp [entries, hentry]
          rw [hentries, MessageDraft.descriptors]
          exact (HeldBy.cons_map hmap).mpr ⟨_, value, rfl, hvalue, hfits, hrest⟩
      | false =>
          rw [if_neg (by rw [hmap]; exact Bool.false_ne_true)] at hfits
          have hentries : entries ((n, part) :: c.parts message oneof ns) =
              entries (c.parts message oneof ns) := by
            simp [entries, hfits.1]
          rw [hentries]
          exact (HeldBy.cons_single hmap).mpr ⟨hfits.2, hrest⟩

theorem exists_property {oneof : Option Int} {ns : List PropertyNode}
    (h : c.propertyErrors oneof ns = []) (message : String) :
    ∀ n ∈ ns, ∃ part, c.property message oneof n = .ok part := by
  intro n hn
  obtain ⟨part, hpart⟩ := property_of_no_errors h hn
  have hsame := property_imports c message "" oneof n
  rw [hpart] at hsame
  cases hproperty : c.property message oneof n with
  | ok part' => exact ⟨part', rfl⟩
  | error e =>
      rw [hproperty] at hsame
      cases hsame

/-! ## Messages of nodes -/

/-- The entries of maps among the messages inside a message. -/
theorem filter_isMapEntry (message outer : String) (oneof : Option Int)
    (properties : List PropertyNode) (nested : List SchemaNode) :
    (MessageDraft.descriptors (entries (c.parts message oneof properties) ++
      c.messageDrafts outer nested)).filter MessageDescriptor.isMapEntry =
        MessageDraft.descriptors (entries (c.parts message oneof properties)) := by
  rw [MessageDraft.descriptors_append, List.filter_append]
  have hentries : (MessageDraft.descriptors (entries (c.parts message oneof properties))).filter
      MessageDescriptor.isMapEntry =
        MessageDraft.descriptors (entries (c.parts message oneof properties)) :=
    List.filter_eq_self.mpr fun _ => isMapEntry_entries
  have hmessages : (MessageDraft.descriptors (c.messageDrafts outer nested)).filter
      MessageDescriptor.isMapEntry = [] := by
    refine List.filter_eq_nil_iff.mpr fun m hm => ?_
    rw [isMapEntry_messageDrafts hm]
    exact Bool.false_ne_true
  rw [hentries, hmessages, List.append_nil]

/-- A message stands where its node does and holds its properties. -/
structure Renders (c : Conversion) (h : Holder) (placed : List String × MessageDescriptor) : Prop where
  path : placed.1 = h.path
  held : HeldBy PropertyNode.isMap c.Fits h.properties placed.2.fields placed.2.mapEntries

theorem heldBy_lowered {message : String} {oneof : Option Int} {ns : List PropertyNode}
    (h : c.propertyErrors oneof ns = []) (oneofs : List (Described OneofDescriptor))
    (synthetic : List Nat) :
    HeldBy PropertyNode.isMap c.Fits ns
      (MessageDraft.lowered (fields (c.parts message oneof ns)) oneofs synthetic).1
      (MessageDraft.descriptors (entries (c.parts message oneof ns))) :=
  (heldBy_parts (exists_property h message)).congr
    (MessageDraft.map_lowered (fun _ _ => rfl) _ _ _).symm

mutual

theorem renders_object (outer : String) {nest : List String} : (node : ObjectNode) →
    node.StandsIn nest → c.objectErrors node = [] →
      List.Forall₂ c.Renders node.holders
        (((c.objectDraft outer node).descriptor.elements nest).filterMap PlacedElement.message?)
  | { head, properties, nested, entity, polymorphMember }, ⟨hnest, hnested⟩, herrors => by
      rw [objectErrors, List.append_eq_nil_iff, List.append_eq_nil_iff] at herrors
      rw [Head.childNest, hnest] at hnested
      rw [elements_objectDraft, ObjectNode.holders, Head.childNest, hnest]
      refine List.Forall₂.cons ⟨rfl, ?_⟩ (renders_schemas _ nested hnested herrors.2)
      rw [objectDraft, MessageDraft.descriptor, MessageDescriptor.mapEntries, filter_isMapEntry]
      exact heldBy_lowered herrors.1.2 _ _

theorem renders_oneof (outer : String) {nest : List String} : (node : OneofNode) →
    node.StandsIn nest → c.oneofErrors node = [] →
      List.Forall₂ c.Renders node.holders
        (((c.oneofDraft outer node).descriptor.elements nest).filterMap PlacedElement.message?)
  | { head, properties, nested, entity }, ⟨hnest, hnested⟩, herrors => by
      rw [oneofErrors, List.append_eq_nil_iff] at herrors
      rw [Head.childNest, hnest] at hnested
      rw [elements_oneofDraft, OneofNode.holders, Head.childNest, hnest]
      refine List.Forall₂.cons ⟨rfl, ?_⟩ (renders_schemas _ nested hnested herrors.2)
      rw [oneofDraft, MessageDraft.descriptor, MessageDescriptor.mapEntries, filter_isMapEntry]
      exact heldBy_lowered herrors.1 _ _

/-- The messages of schemas are those of the nodes in them, in their order. -/
theorem renders_schemas (outer : String) {nest : List String} : (nodes : List SchemaNode) →
    SchemaNode.AllStandIn nest nodes → c.schemaErrorsList nodes = [] →
      List.Forall₂ c.Renders (SchemaNode.holdersList nodes)
        ((c.schemaElements outer nest nodes).filterMap PlacedElement.message?)
  | [], _, _ => List.Forall₂.nil
  | .object node :: rest, ⟨hnode, hrest⟩, herrors => by
      rw [schemaErrorsList, schemaErrors, List.append_eq_nil_iff] at herrors
      rw [schemaElements, messageDrafts, MessageDraft.descriptors, MessageDescriptor.elementsList,
        List.append_assoc, List.filterMap_append]
      exact List.rel_append (renders_object outer node hnode herrors.1)
        (renders_schemas outer rest hrest herrors.2)
  | .oneof node :: rest, ⟨hnode, hrest⟩, herrors => by
      rw [schemaErrorsList, schemaErrors, List.append_eq_nil_iff] at herrors
      rw [schemaElements, messageDrafts, MessageDraft.descriptors, MessageDescriptor.elementsList,
        List.append_assoc, List.filterMap_append]
      exact List.rel_append (renders_oneof outer node hnode herrors.1)
        (renders_schemas outer rest hrest herrors.2)
  | .polymorph node :: rest, ⟨hnode, hrest⟩, herrors => by
      rw [schemaErrorsList, List.append_eq_nil_iff] at herrors
      rw [schemaElements, messageDrafts, MessageDraft.descriptors, MessageDescriptor.elementsList,
        List.append_assoc, elements_polymorphDraft, SchemaNode.holdersList, SchemaNode.holders,
        Head.childNest, hnode]
      exact List.Forall₂.cons ⟨rfl, trivial⟩ (renders_schemas outer rest hrest herrors.2)
  | .enum node :: rest, ⟨_, hrest⟩, herrors => by
      rw [schemaErrorsList, List.append_eq_nil_iff] at herrors
      have hrenders := renders_schemas outer rest hrest herrors.2
      rw [schemaElements, List.filterMap_append] at hrenders ⊢
      rw [messageDrafts]
      exact hrenders

end

end Conversion

/-! ## Names that are looked up -/

theorem SchemaNode.exists_declared (package file : String) (node : SchemaNode) :
    ∃ t ∈ node.declared package file, t.package = package ∧ t.name = node.nameInPackage := by
  cases node with
  | object node =>
      cases node
      exact ⟨_, List.mem_cons_self, rfl, rfl⟩
  | oneof node =>
      cases node
      exact ⟨_, List.mem_cons_self, rfl, rfl⟩
  | enum node => exact ⟨_, List.mem_cons_self, rfl, rfl⟩
  | polymorph node => exact ⟨_, List.mem_cons_self, rfl, rfl⟩

theorem SchemaNode.declaredList_eq (package file : String) (nodes : List SchemaNode) :
    declaredList package file nodes = nodes.flatMap (declared package file) := by
  induction nodes with
  | nil => rfl
  | cons node rest ih => rw [declaredList, ih, List.flatMap_cons]

/-- What is nested in a node is declared. -/
def Holder.Declared (package : String) (types : List TypeRef) (h : Holder) : Prop :=
  ∀ child ∈ h.nested, ∃ t ∈ types, t.package = package ∧ t.name = child.nameInPackage

theorem Holder.declared_of_subset {package file : String} {types : List TypeRef}
    {path : List String} {properties : List PropertyNode} {nested : List SchemaNode}
    (h : SchemaNode.declaredList package file nested ⊆ types) :
    Holder.Declared package types ⟨path, properties, nested⟩ := by
  intro child hchild
  obtain ⟨t, ht, hpackage, hname⟩ := child.exists_declared package file
  rw [SchemaNode.declaredList_eq] at h
  exact ⟨t, h (List.mem_flatMap_of_mem hchild ht), hpackage, hname⟩

mutual

theorem ObjectNode.holders_declared {package file : String} {types : List TypeRef} :
    (node : ObjectNode) → node.declared package file ⊆ types →
      ∀ h ∈ node.holders, h.Declared package types
  | { head, properties, nested, entity, polymorphMember }, hsub => by
      rw [ObjectNode.declared] at hsub
      have hnested := (List.cons_subset.mp hsub).2
      rw [ObjectNode.holders]
      exact List.forall_mem_cons.mpr
        ⟨Holder.declared_of_subset hnested, SchemaNode.holders_declared nested hnested⟩

theorem OneofNode.holders_declared {package file : String} {types : List TypeRef} :
    (node : OneofNode) → node.declared package file ⊆ types →
      ∀ h ∈ node.holders, h.Declared package types
  | { head, properties, nested, entity }, hsub => by
      rw [OneofNode.declared] at hsub
      have hnested := (List.cons_subset.mp hsub).2
      rw [OneofNode.holders]
      exact List.forall_mem_cons.mpr
        ⟨Holder.declared_of_subset hnested, SchemaNode.holders_declared nested hnested⟩

theorem SchemaNode.holders_declared {package file : String} {types : List TypeRef} :
    (nodes : List SchemaNode) → SchemaNode.declaredList package file nodes ⊆ types →
      ∀ h ∈ SchemaNode.holdersList nodes, h.Declared package types
  | [], _ => fun _ h => absurd h List.not_mem_nil
  | .object node :: rest, hsub => by
      obtain ⟨hnode, hrest⟩ := List.append_subset.mp hsub
      exact List.forall_mem_append.mpr
        ⟨ObjectNode.holders_declared node hnode, SchemaNode.holders_declared rest hrest⟩
  | .oneof node :: rest, hsub => by
      obtain ⟨hnode, hrest⟩ := List.append_subset.mp hsub
      exact List.forall_mem_append.mpr
        ⟨OneofNode.holders_declared node hnode, SchemaNode.holders_declared rest hrest⟩
  | .polymorph node :: rest, hsub => by
      obtain ⟨-, hrest⟩ := List.append_subset.mp hsub
      exact List.forall_mem_cons.mpr
        ⟨fun _ h => absurd h List.not_mem_nil, SchemaNode.holders_declared rest hrest⟩
  | .enum node :: rest, hsub => by
      obtain ⟨-, hrest⟩ := List.append_subset.mp hsub
      exact SchemaNode.holders_declared rest hrest

end

theorem FileName.subPackage_ne (package folder : String) : subPackage package folder ≠ package := by
  intro h
  have hlength := congrArg String.length h
  rw [subPackage, String.length_append, String.length_append] at hlength
  have hdot : ".".length = 1 := rfl
  omega

namespace Document

variable {d : Document} {r : Resolver} {files : List FileDescriptor}

/-- A name inside a package is found there: either this is the package of the schemas, which count
before all else, or no type of another package has the name. -/
def Unclaimed (d : Document) (package name : String) : Prop :=
  package = d.package ∨ ∀ t ∈ d.types, t.name = name → t.package = package

theorem mem_mainTypes {t : TypeRef} (ht : t ∈ d.types) (hpackage : t.package = d.package) :
    t ∈ d.mainTypes := by
  rcases List.mem_append.mp ht with ht | ht
  · rcases package_of_mem_payloadTypes ht with h | h
    · exact absurd (h.symm.trans hpackage) (FileName.subPackage_ne _ _)
    · exact absurd (h.symm.trans hpackage) (FileName.subPackage_ne _ _)
  · exact ht

/-- A schema counts before all else that has its name. -/
theorem package_of_declared {name : String} {found t : TypeRef} (h : d.declared.get? name = some found)
    (ht : t ∈ d.mainTypes) (hname : t.name = name) : found.package = d.package := by
  -- Among the types the schemas come last, so that one of them is found.
  have hlast : name ∈ (d.mainTypes.map fun t => (t.name, t)).map Prod.fst := by
    rw [List.map_map, ← hname]
    exact List.mem_map_of_mem ht
  have hsplit : d.declared = .ofList ((d.nodes.flatMap d.payloadTypes).map (fun t => (t.name, t)) ++
      d.mainTypes.map fun t => (t.name, t)) := by
    rw [← List.map_append]
    rfl
  rw [hsplit] at h
  obtain ⟨t', ht', heq⟩ := List.mem_map.mp (Dict.mem_of_get?_ofList_append h hlast)
  obtain ⟨-, rfl⟩ := Prod.mk.inj heq
  exact package_of_mem_mainTypes ht'

/-- Under the name of a type one of the types is found, and not one of another package unless the name
is claimed. -/
theorem exists_lookup {t : TypeRef} (ht : t ∈ d.types) :
    ∃ found ∈ d.types, (d.conversion r).lookup { schema := t.name } = .ok found ∧
      found.name = t.name ∧ (d.Unclaimed t.package t.name → found.package = t.package) := by
  have hkey : t.name ∈ (d.types.map fun t => (t.name, t)).map Prod.fst := by
    rw [List.map_map]
    exact List.mem_map_of_mem ht
  obtain ⟨found, hfound⟩ : ∃ found, d.declared.get? t.name = some found := Dict.exists_get?_ofList hkey
  obtain ⟨hmem, heq⟩ := mem_types_of_declared hfound
  refine ⟨found, hmem, ?_, heq, ?_⟩
  · have hknown : (d.conversion r).known? { schema := t.name } = some found := by
      have hown : (d.conversion r).packageOf { schema := t.name } = (d.conversion r).package := rfl
      rw [Conversion.known?, if_pos hown]
      exact (congrArg (Option.or · _) hfound).trans Option.some_or
    rw [Conversion.lookup_eq, hknown]
  · rintro (hmain | hall)
    · rw [package_of_declared hfound (mem_mainTypes ht hmain) rfl, hmain]
    · exact hall found hmem heq

end Document

/-- A field has the name of its property.  If a schema is declared in place of the property, the field
has a type of the schema's name, and that is the schema unless the name is claimed. -/
def Owner.Fits (d : Document) (package : String) (o : Owner) (p : PropertyDecl)
    (jsonName typeName : Option String) : Prop :=
  jsonName = some p.name ∧ ∀ name, p.inlineName? = some name →
    ∃ found ∈ d.types, found.name = Text.join "." (o.path ++ [name]) ∧
      typeName = some ("." ++ qualify found.package found.name) ∧
      (d.Unclaimed package found.name → found.package = package)

/-- A message stands where it was declared and holds the properties it was declared with. -/
def Owner.Shown (d : Document) (package : String) (o : Owner)
    (placed : List String × MessageDescriptor) : Prop :=
  placed.1 = o.path ∧
    HeldBy PropertyDecl.isMap (o.Fits d package) o.properties placed.2.fields placed.2.mapEntries

namespace Owner

variable {d : Document} {r : Resolver} {package : String} {o : Owner}

theorem fits_of_becomes {nested : List SchemaNode} {p : PropertyDecl} {n : PropertyNode}
    {jsonName typeName : Option String} (hbecomes : p.Becomes o.path nested n)
    (hdeclared : ∀ child ∈ nested, ∃ t ∈ d.types, t.package = package ∧ t.name = child.nameInPackage)
    (hfits : (d.conversion r).Fits n jsonName typeName) : o.Fits d package p jsonName typeName := by
  refine ⟨by rw [hfits.1, hbecomes.name], fun name hname => ?_⟩
  obtain ⟨htarget, child, hchild, heq⟩ := hbecomes.inline name hname
  obtain ⟨t, ht, rfl, htname⟩ := hdeclared child hchild
  rw [heq] at htname
  rw [← htname] at htarget ⊢
  obtain ⟨found, hmem, hfound, hfoundName, hpackage⟩ := Document.exists_lookup (r := r) ht
  obtain ⟨found', hfound', htype⟩ := hfits.2 _ htarget
  rw [hfound] at hfound'
  cases hfound'
  exact ⟨found, hmem, hfoundName, htype, hfoundName ▸ hpackage⟩

theorem heldBy_of_become {nested : List SchemaNode}
    (hdeclared : ∀ child ∈ nested, ∃ t ∈ d.types, t.package = package ∧ t.name = child.nameInPackage)
    {ps : List PropertyDecl} {ns : List PropertyNode} {fields : List FieldDescriptor}
    {entries : List MessageDescriptor} (hbecome : PropertyDecl.AllBecome o.path nested ps ns)
    (hheld : HeldBy PropertyNode.isMap (d.conversion r).Fits ns fields entries) :
    HeldBy PropertyDecl.isMap (o.Fits d package) ps fields entries := by
  induction ps generalizing ns fields entries with
  | nil => trivial
  | cons p ps ih =>
      cases ns with
      | nil => exact hbecome.elim
      | cons n ns =>
          obtain ⟨hp, hps⟩ := hbecome
          cases fields with
          | nil => exact hheld.elim
          | cons f fs =>
              cases hmap : p.isMap with
              | false =>
                  rw [HeldBy.cons_single (hp.isMap.trans hmap)] at hheld
                  exact (HeldBy.cons_single hmap).mpr
                    ⟨fits_of_becomes hp hdeclared hheld.1, ih hps hheld.2⟩
              | true =>
                  rw [HeldBy.cons_map (hp.isMap.trans hmap)] at hheld
                  obtain ⟨entry, value, hentry, hvalue, hfits, hrest⟩ := hheld
                  exact (HeldBy.cons_map hmap).mpr
                    ⟨entry, value, hentry, hvalue, fits_of_becomes hp hdeclared hfits, ih hps hrest⟩

end Owner

/-! ## Files -/

namespace Conversion

theorem messageDrafts_objects (c : Conversion) (outer : String) (objects : List ObjectNode) :
    c.messageDrafts outer (objects.map .object) = objects.map (c.objectDraft outer) := by
  induction objects with
  | nil => rfl
  | cons object rest ih => rw [List.map_cons, messageDrafts, ih, List.map_cons]

theorem enumDrafts_objects (objects : List ObjectNode) : enumDrafts (objects.map .object) = [] := by
  simp [enumDrafts]

theorem schemaErrorsList_eq (c : Conversion) (nodes : List SchemaNode) :
    c.schemaErrorsList nodes = nodes.flatMap c.schemaErrors := by
  induction nodes with
  | nil => rfl
  | cons node rest ih => rw [schemaErrorsList, ih, List.flatMap_cons]

end Conversion

namespace Document

variable {d : Document} {r : Resolver} {files : List FileDescriptor}

theorem schemaErrors_of_no_errors (h : d.conversionErrors r = []) :
    (d.conversion r).schemaErrorsList (RootNode.schemas d.nodes) = [] := by
  rw [Conversion.schemaErrorsList_eq, List.flatMap_eq_nil_iff]
  exact fun node hnode => rootErrors_of_no_errors h (RootNode.mem_schemas.mp hnode)

/-- What was declared for the file of a package. -/
def ownersIn (d : Document) (package : String) : List Owner :=
  if package = d.package then d.schemaOwners
  else if package = d.servicePackage then d.serviceOwners
  else if package = d.topicPackage then d.topicOwners
  else []

/-- The messages of nodes show what the nodes were declared with. -/
theorem shown_of_nodes {package file : String} {owners : List Owner} {nodes : List SchemaNode}
    (hbecome : Owner.AllBecome owners nodes) (hstand : SchemaNode.AllStandIn [] nodes)
    (herrors : (d.conversion r).schemaErrorsList nodes = [])
    (hdeclared : SchemaNode.declaredList package file nodes ⊆ d.types) :
    List.Forall₂ (Owner.Shown d package) owners
      (((d.conversion r).schemaElements package [] nodes).filterMap PlacedElement.message?) := by
  have hrenders := (List.forall₂_and_left _ _).mpr
    ⟨SchemaNode.holders_declared nodes hdeclared, Conversion.renders_schemas package nodes hstand herrors⟩
  refine forall₂_compose (fun o h placed hbecomes hrenders => ?_) hbecome hrenders
  obtain ⟨hdeclared, hpath, hheld⟩ := hrenders
  exact ⟨hpath.trans hbecomes.path, Owner.heldBy_of_become hdeclared hbecomes.properties hheld⟩

/-- A file with the messages of objects shows what the objects were declared with. -/
theorem shown_of_objects {package file : String} {owners : List Owner} {objects : List ObjectNode}
    {f : FileDescriptor} (hbecome : Owner.AllBecome owners (objects.map .object))
    (hobjects : ∀ object ∈ objects, object.StandsIn [] ∧
      (d.conversion r).objectErrors object = [] ∧ object.declared package file ⊆ d.types)
    (hmessages : f.messages =
      MessageDraft.descriptors (objects.map ((d.conversion r).objectDraft package)))
    (henums : f.enums = []) : List.Forall₂ (Owner.Shown d package) owners f.placedMessages := by
  have helements : f.elements = (d.conversion r).schemaElements package [] (objects.map .object) := by
    rw [FileDescriptor.elements, hmessages, henums, Conversion.schemaElements,
      Conversion.messageDrafts_objects, Conversion.enumDrafts_objects]
    rfl
  have hstand : SchemaNode.AllStandIn [] (objects.map .object) := by
    rw [SchemaNode.allStandIn_iff, List.forall_mem_map]
    exact fun object hobject => (hobjects object hobject).1
  have herrors : (d.conversion r).schemaErrorsList (objects.map .object) = [] := by
    rw [Conversion.schemaErrorsList_eq, List.flatMap_eq_nil_iff, List.forall_mem_map]
    exact fun object hobject => (hobjects object hobject).2.1
  have hdeclared : SchemaNode.declaredList package file (objects.map .object) ⊆ d.types := by
    intro t ht
    rw [SchemaNode.declaredList_eq, List.flatMap_map] at ht
    obtain ⟨object, hobject, ht⟩ := List.mem_flatMap.mp ht
    exact (hobjects object hobject).2.2 ht
  rw [FileDescriptor.placedMessages, helements]
  exact shown_of_nodes hbecome hstand herrors hdeclared

theorem mem_payloadTypes {node : RootNode} (hnode : node ∈ d.nodes) {t : TypeRef}
    (ht : t ∈ d.payloadTypes node) : t ∈ d.types :=
  List.mem_append_left _ (List.mem_flatMap_of_mem hnode ht)

theorem service_objects (h : d.conversionErrors r = []) :
    ∀ object ∈ (RootNode.services d.nodes).flatMap ServiceNode.objects, object.StandsIn [] ∧
      (d.conversion r).objectErrors object = [] ∧
        object.declared d.servicePackage d.serviceFile ⊆ d.types := by
  intro object hobject
  obtain ⟨node, hnode, hobject⟩ := List.mem_flatMap.mp hobject
  have hmem := RootNode.mem_services.mp hnode
  exact ⟨d.nodes_stand _ hmem object hobject,
    List.flatMap_eq_nil_iff.mp (rootErrors_of_no_errors h hmem) object hobject,
    fun t ht => mem_payloadTypes hmem (List.mem_flatMap_of_mem hobject ht)⟩

theorem topic_objects (h : d.conversionErrors r = []) :
    ∀ object ∈ (RootNode.topics d.nodes).flatMap TopicNode.objects, object.StandsIn [] ∧
      (d.conversion r).objectErrors object = [] ∧
        object.declared d.topicPackage d.topicFile ⊆ d.types := by
  intro object hobject
  obtain ⟨node, hnode, hobject⟩ := List.mem_flatMap.mp hobject
  have hmem := RootNode.mem_topics.mp hnode
  exact ⟨(d.nodes_stand _ hmem).2 object hobject,
    List.flatMap_eq_nil_iff.mp (rootErrors_of_no_errors h hmem) object hobject,
    fun t ht => mem_payloadTypes hmem (List.mem_flatMap_of_mem hobject ht)⟩

theorem shown_main (h : d.conversionErrors r = [])
    (hbecome : Owner.AllBecome d.schemaOwners (RootNode.schemas d.nodes)) {f : FileDescriptor}
    (helements : f.elements =
      (d.conversion r).schemaElements d.package [] (RootNode.schemas d.nodes)) :
    List.Forall₂ (Owner.Shown d d.package) d.schemaOwners f.placedMessages := by
  have hdeclared : d.mainTypes ⊆ d.types := List.subset_append_right _ _
  rw [FileDescriptor.placedMessages, helements]
  exact shown_of_nodes hbecome d.schemas_standIn (schemaErrors_of_no_errors h) hdeclared

theorem outcome_of_no_errors (h : d.conversionErrors r = []) :
    ∀ outcome ∈ d.outcomes, ∃ nodes, outcome = .ok nodes := by
  intro outcome houtcome
  rw [← reach_of_no_errors h] at houtcome
  cases outcome with
  | ok nodes => exact ⟨nodes, rfl⟩
  | error e => cases List.flatMap_eq_nil_iff.mp h _ houtcome

theorem ownersIn_service (d : Document) : d.ownersIn d.servicePackage = d.serviceOwners := by
  have hmain : d.servicePackage ≠ d.package := FileName.subPackage_ne _ _
  rw [ownersIn, if_neg hmain, if_pos rfl]

theorem ownersIn_topic (d : Document) : d.ownersIn d.topicPackage = d.topicOwners := by
  have hmain : d.topicPackage ≠ d.package := FileName.subPackage_ne _ _
  have hservice : d.topicPackage ≠ d.servicePackage := by
    intro h
    have hfolder := (String.append_right_inj _).mp h
    exact absurd hfolder (by decide)
  rw [ownersIn, if_neg hmain, if_neg hservice, if_pos rfl]

/-- Where something was declared for a package, there are nodes for it. -/
theorem ne_nil_of_become {α : Type} {nodes : List α} {objects : α → List SchemaNode}
    {owners : List Owner} (h : Owner.AllBecome owners (nodes.flatMap objects)) (hne : owners ≠ []) :
    nodes.isEmpty = false := by
  cases nodes with
  | nil =>
      cases h
      exact absurd rfl hne
  | cons node rest => rfl

/-- There is a file for every package for which something was declared. -/
theorem exists_draft_of_owners (hservices : Owner.AllBecome d.serviceOwners (RootNode.serviceSchemas d.nodes))
    (htopics : Owner.AllBecome d.topicOwners (RootNode.topicSchemas d.nodes)) (c : Conversion)
    {package : String} (hne : d.ownersIn package ≠ []) :
    ∃ draft ∈ d.drafts c d.nodes, draft.package = package := by
  unfold ownersIn at hne
  split at hne
  · rename_i hpackage
    exact ⟨_, List.mem_cons_self, hpackage.symm⟩
  · split at hne
    · rename_i hpackage
      have hsome := Bool.eq_false_iff.mp (ne_nil_of_become hservices hne)
      have hdraft := Option.mem_toList.mpr (if_neg hsome : d.serviceDraft? c _ = some _)
      exact ⟨_, List.mem_cons_of_mem _ (List.mem_append_left _ hdraft), hpackage.symm⟩
    · split at hne
      · rename_i hpackage
        have hsome := Bool.eq_false_iff.mp (ne_nil_of_become htopics hne)
        have hdraft := Option.mem_toList.mpr (if_neg hsome : d.topicDraft? c _ = some _)
        exact ⟨_, List.mem_cons_of_mem _ (List.mem_append_right _ hdraft), hpackage.symm⟩
      · exact absurd rfl hne

/-- What is declared in place of a property is the type of its field, in every message of every
file, or of the values of its map.  Each file shows what was declared for it, and nothing else. -/
theorem convert_inline (h : d.convert r = .ok files) :
    (∀ package, d.ownersIn package ≠ [] → ∃ f ∈ files, f.packageText = package) ∧
      ∀ f ∈ files, List.Forall₂ (Owner.Shown d f.packageText) (d.ownersIn f.packageText)
        f.placedMessages := by
  obtain ⟨hnone, rfl⟩ := convert_eq_ok h
  obtain ⟨hschemas, hservices, htopics⟩ := owners_become (outcome_of_no_errors hnone)
  constructor
  · intro package hne
    obtain ⟨draft, hdraft, hpackage⟩ := exists_draft_of_owners hservices htopics (d.conversion r) hne
    exact ⟨draft.descriptor, List.mem_map_of_mem hdraft, hpackage⟩
  · rw [List.forall_mem_map]
    intro draft hdraft
    rcases List.mem_cons.mp hdraft with rfl | hdraft
    · show List.Forall₂ (Owner.Shown d d.package) (d.ownersIn d.package) _
      rw [ownersIn, if_pos rfl]
      exact shown_main hnone hschemas rfl
    · rcases List.mem_append.mp hdraft with hdraft | hdraft
      · rw [Option.mem_toList, serviceDraft?] at hdraft
        split at hdraft
        · cases hdraft
        · cases hdraft
          show List.Forall₂ (Owner.Shown d d.servicePackage) (d.ownersIn d.servicePackage) _
          rw [ownersIn_service]
          rw [RootNode.serviceSchemas, ← List.map_flatMap] at hservices
          exact shown_of_objects hservices (service_objects hnone) rfl rfl
      · rw [Option.mem_toList, topicDraft?] at hdraft
        split at hdraft
        · cases hdraft
        · cases hdraft
          show List.Forall₂ (Owner.Shown d d.topicPackage) (d.ownersIn d.topicPackage) _
          rw [ownersIn_topic]
          rw [RootNode.topicSchemas, ← List.map_flatMap] at htopics
          exact shown_of_objects htopics (topic_objects hnone) rfl rfl

/-- A catalog has pages by their titles, each with pictures of some kind.  It can be searched. -/
def catalog : Document where
  path := "a/v1/a.j5s"
  package := "a.v1"
  elements :=
    [.object { name := "Catalog", properties :=
        [{ name := "pages", schema := .map (.object (.inline { name := "Page", properties :=
            [{ name := "pictures", schema := .array (.enum (.inline { name := "", options :=
              [{ name := "PHOTO" }] }) {} none) {} none }] }) false) {} }] },
     .service { name := some "Catalog", methods := [{ name := "Find", request :=
        [{ name := "filter", schema := .oneof (.inline { name := "", properties :=
          [{ name := "title", schema := .string {} }] }) }] }] }]

theorem convert_inline_catalog : ∃ files, catalog.convert (TypeTable.resolve {}) = .ok files ∧
    (∀ package, catalog.ownersIn package ≠ [] → ∃ f ∈ files, f.packageText = package) ∧
    (∀ f ∈ files, List.Forall₂ (Owner.Shown catalog f.packageText) (catalog.ownersIn f.packageText)
      f.placedMessages) ∧
    (catalog.ownersIn "a.v1").map (fun o => (o.path, o.properties.map PropertyDecl.inlineName?)) =
      [(["Catalog"], [some "Page"]), (["Catalog", "Page"], [some "Pictures"])] ∧
    (catalog.ownersIn "a.v1.service").map (fun o => (o.path, o.properties.map PropertyDecl.inlineName?)) =
      [(["FindRequest"], [some "Filter"]), (["FindRequest", "Filter"], [none]), (["FindResponse"], [])] ∧
    catalog.Unclaimed "a.v1.service" "FindRequest.Filter" := by
  obtain ⟨files, hconvert⟩ : ∃ files, catalog.convert (TypeTable.resolve {}) = .ok files :=
    exists_convert (by decide +kernel)
  obtain ⟨hfiles, hshown⟩ := convert_inline hconvert
  exact ⟨files, hconvert, hfiles, hshown, by decide +kernel, by decide +kernel,
    Or.inr (by decide +kernel)⟩

/-- The request of a search has a filter of its own, and a schema has the request's name and a
filter in it. -/
def searches : Document where
  path := "foo/v1/foo.j5s"
  package := "foo.v1"
  elements :=
    [.object { name := "GetRequest", schemas :=
        [.object { name := "Filter", properties := [{ name := "a", schema := .string {} }] }] },
     .service { name := some "Foo", methods := [{ name := "Get", request :=
        [{ name := "filter", schema := .object (.inline { name := "", properties :=
          [{ name := "b", schema := .bool {} }] }) false }] }] }]

/-- A filter declared in place of a property of a request is not the type of the field where a schema
has the same name. -/
theorem convert_inline_searches : ∃ files, searches.convert (TypeTable.resolve {}) = .ok files ∧
    files.map FileDescriptor.packageText = ["foo.v1", "foo.v1.service"] ∧
    (searches.ownersIn "foo.v1.service").map
        (fun o => (o.path, o.properties.map PropertyDecl.inlineName?)) =
      [(["GetRequest"], [some "Filter"]), (["GetRequest", "Filter"], [none]), (["GetResponse"], [])] ∧
    files.map (fun f => f.placedMessages.map fun (path, m) =>
        (path, m.fields.map FieldDescriptor.typeName)) =
      [[(["GetRequest"], []), (["GetRequest", "Filter"], [none])],
       [(["GetRequest"], [some ".foo.v1.GetRequest.Filter"]), (["GetRequest", "Filter"], [none]),
        (["GetResponse"], [])]] ∧
    ".foo.v1.GetRequest.Filter" ≠ "." ++ qualify "foo.v1.service" "GetRequest.Filter" := by
  obtain ⟨files, hconvert⟩ : ∃ files, searches.convert (TypeTable.resolve {}) = .ok files :=
    exists_convert (by decide +kernel)
  obtain ⟨-, rfl⟩ := convert_eq_ok hconvert
  exact ⟨_, hconvert, by decide +kernel, by decide +kernel, by decide +kernel, by decide⟩

end Document
end Schematic
