import Schematic.Package.Source
import Schematic.Proofs.Conversion.Declared
import Schematic.Proofs.Text.Cut
import Mathlib.Data.List.Basic

/-!
# The messages and enums of a file

A file holds messages and enums, some of them inside messages, and to each of them leads a path of
names.  The schemas of a document become these elements: one for each schema, under the names of
the schemas around it, and none for the entries of maps.
-/

namespace Schematic

/-- A message or an enum of a file. -/
inductive TypeElement where
  | message (m : MessageDescriptor)
  | enum (e : EnumDescriptor)

/-- The names that lead to an element, the outermost first, with the element. -/
abbrev PlacedElement := List String × TypeElement

/-- Enums that stand in what `outer` leads to. -/
def EnumDescriptor.elements (outer : List String) (enums : List EnumDescriptor) :
    List PlacedElement :=
  enums.map fun e => (outer ++ [e.nameText], .enum e)

mutual

/-- A message that stands in what `outer` leads to, and all that stands in it.  The entry of a map
is no element. -/
def MessageDescriptor.elements (outer : List String) : MessageDescriptor → List PlacedElement
  | m@⟨name, _, nested, enums, _, _, _, _, _, _⟩ =>
    if m.isMapEntry then []
    else
      let path := outer ++ [name.getD ""]
      (path, .message m) :: MessageDescriptor.elementsList path nested ++
        EnumDescriptor.elements path enums

def MessageDescriptor.elementsList (outer : List String) :
    List MessageDescriptor → List PlacedElement
  | [] => []
  | m :: rest =>
    MessageDescriptor.elements outer m ++ MessageDescriptor.elementsList outer rest

end

/-- All messages and enums of a file. -/
def FileDescriptor.elements (f : FileDescriptor) : List PlacedElement :=
  MessageDescriptor.elementsList [] f.messages ++ EnumDescriptor.elements [] f.enums

namespace PlacedElement

def name (e : PlacedElement) : String :=
  Text.join "." e.1

def fullName (package : String) (e : PlacedElement) : String :=
  qualify package e.name

end PlacedElement

/-! ## Lists of messages -/

namespace MessageDescriptor

theorem elementsList_append (outer : List String) (a b : List MessageDescriptor) :
    elementsList outer (a ++ b) = elementsList outer a ++ elementsList outer b := by
  induction a with
  | nil => rfl
  | cons m rest ih => rw [List.cons_append, elementsList, elementsList, ih, List.append_assoc]

theorem elements_of_isMapEntry {m : MessageDescriptor} (h : m.isMapEntry = true)
    (outer : List String) : m.elements outer = [] := by
  obtain ⟨name, fields, nested, enums, ranges, extensions, options, oneofs, reserved, names⟩ := m
  rw [elements, if_pos h]

theorem elements_of_not_isMapEntry {m : MessageDescriptor} (h : m.isMapEntry = false)
    (outer : List String) :
    m.elements outer = (outer ++ [m.nameText], .message m) ::
      elementsList (outer ++ [m.nameText]) m.nested ++
        EnumDescriptor.elements (outer ++ [m.nameText]) m.enums := by
  obtain ⟨name, fields, nested, enums, ranges, extensions, options, oneofs, reserved, names⟩ := m
  rw [elements, if_neg (by rw [h]; exact Bool.false_ne_true)]
  rfl

theorem elementsList_of_isMapEntry {ms : List MessageDescriptor}
    (h : ∀ m ∈ ms, m.isMapEntry = true) (outer : List String) : elementsList outer ms = [] := by
  induction ms with
  | nil => rfl
  | cons m rest ih =>
      rw [elementsList, elements_of_isMapEntry (h m List.mem_cons_self),
        ih fun m hm => h m (List.mem_cons_of_mem _ hm), List.append_nil]

end MessageDescriptor

namespace MessageDraft

theorem descriptors_append (a b : List MessageDraft) :
    descriptors (a ++ b) = descriptors a ++ descriptors b := by
  rw [descriptors_eq, descriptors_eq, descriptors_eq, List.map_append]

theorem elements_descriptor {d : MessageDraft} (h : (d.options.bind Options.mapEntry?).getD false = false)
    (nest : List String) :
    d.descriptor.elements nest = (nest ++ [d.name], .message d.descriptor) ::
      MessageDescriptor.elementsList (nest ++ [d.name]) (descriptors d.nested) ++
        EnumDescriptor.elements (nest ++ [d.name]) (d.enums.map EnumDraft.descriptor) := by
  obtain ⟨name, description, span, fields, oneofs, synthetic, nested, enums, options⟩ := d
  exact MessageDescriptor.elements_of_not_isMapEntry (by rw [descriptor]; exact h) nest

end MessageDraft

/-! ## Enums -/

namespace EnumNode

theorem values_head (node : EnumNode) : ∃ value rest, node.values = value :: rest ∧
    value.name = node.valuePrefix ++ Build.unspecified ∧ value.number = 0 := by
  refine ⟨node.zeroValue, _, rfl, ?_, ?_⟩
  · rw [zeroValue]
    split
    · rfl
    · split <;> rfl
  · rw [zeroValue]
    split
    · rfl
    · split <;> rfl

end EnumNode

namespace Conversion

/-- From the values of an enum its prefix can be told, since the first is the unspecified one. -/
theorem table_enumDraft (node : EnumNode) : (enumDraft node).descriptor.table = node.table := by
  have hvalues : (enumDraft node).descriptor.values =
      node.values.map fun v => { name := some v.name, number := some v.number } := by
    rw [enumDraft, EnumDraft.descriptor, List.map_map]
    rfl
  obtain ⟨value, rest, hcons, hname, hnumber⟩ := node.values_head
  have hprefix : (enumDraft node).descriptor.valuePrefix = node.valuePrefix := by
    rw [EnumDescriptor.valuePrefix, hvalues, hcons, List.map_cons,
      List.find?_cons_of_pos (by rw [hnumber]; rfl)]
    show (Text.withoutEnding? Build.unspecified value.name).getD "" = _
    rw [hname, Text.withoutEnding?_append, Option.getD_some]
  rw [EnumDescriptor.table, hprefix, hvalues, List.map_map]
  rfl

/-! ## Entries of maps -/

theorem mapEntry_of_layout {c : Conversion} {message : String} {p : PropertyNode} {l : Layout}
    (h : c.layout message p = .ok l) {entry : MessageDraft} (hentry : l.entry = some entry) :
    ∃ name span value, entry = mapEntry name span value := by
  simp only [layout] at h
  split at h
  · split at h
    · cases h
    · obtain ⟨value, -, h⟩ := bind_eq_ok h
      cases h
      cases hentry
  · split at h
    · cases h
    · obtain ⟨value, -, h⟩ := bind_eq_ok h
      cases h
      cases hentry
      exact ⟨_, _, _, rfl⟩
  · obtain ⟨value, -, h⟩ := bind_eq_ok h
    cases h
    cases hentry

theorem mapEntry_of_property {c : Conversion} {message : String} {oneof : Option Int}
    {p : PropertyNode} {part : FieldPart} (h : c.property message oneof p = .ok part)
    {entry : MessageDraft} (hentry : part.entry = some entry) :
    ∃ name span value, entry = mapEntry name span value := by
  rw [property] at h
  split at h
  · cases h
  · obtain ⟨l, hl, h⟩ := bind_eq_ok h
    obtain ⟨⟨options, files⟩, -, h⟩ := bind_eq_ok h
    cases h
    exact mapEntry_of_layout hl hentry

theorem mapEntry_of_mem_entries {c : Conversion} {message : String} {oneof : Option Int}
    {properties : List PropertyNode} {entry : MessageDraft}
    (h : entry ∈ entries (c.parts message oneof properties)) :
    ∃ name span value, entry = mapEntry name span value := by
  obtain ⟨⟨p, part⟩, hpart, hentry⟩ := List.mem_filterMap.mp h
  obtain ⟨p', -, hp'⟩ := List.mem_filterMap.mp hpart
  split at hp'
  · rename_i part' hproperty
    cases hp'
    exact mapEntry_of_property hproperty hentry
  · cases hp'

theorem isMapEntry_entries {c : Conversion} {message : String} {oneof : Option Int}
    {properties : List PropertyNode} {m : MessageDescriptor}
    (h : m ∈ MessageDraft.descriptors (entries (c.parts message oneof properties))) :
    m.isMapEntry = true := by
  rw [MessageDraft.descriptors_eq] at h
  obtain ⟨entry, hentry, rfl⟩ := List.mem_map.mp h
  obtain ⟨name, span, value, rfl⟩ := mapEntry_of_mem_entries hentry
  rfl

theorem elementsList_entries (c : Conversion) (message : String) (oneof : Option Int)
    (properties : List PropertyNode) (path : List String) :
    MessageDescriptor.elementsList path
      (MessageDraft.descriptors (entries (c.parts message oneof properties))) = [] :=
  MessageDescriptor.elementsList_of_isMapEntry (fun _ => isMapEntry_entries) path

/-! ## Elements of nodes -/

/-- The message of a schema has its name and is no entry of a map. -/
theorem exists_of_mem_messageDrafts {c : Conversion} {outer : String} {nodes : List SchemaNode}
    {draft : MessageDraft} (h : draft ∈ c.messageDrafts outer nodes) :
    ∃ node ∈ nodes, draft.name = node.head.name ∧ draft.descriptor.isMapEntry = false := by
  induction nodes with
  | nil => cases h
  | cons node rest ih =>
      have hrest : draft ∈ c.messageDrafts outer rest → ∃ n ∈ node :: rest,
          draft.name = n.head.name ∧ draft.descriptor.isMapEntry = false := by
        intro h
        obtain ⟨n, hn, hdraft⟩ := ih h
        exact ⟨n, List.mem_cons_of_mem _ hn, hdraft⟩
      cases node with
      | enum node => exact hrest h
      | object node =>
          rcases List.mem_cons.mp h with rfl | h
          · cases node
            exact ⟨_, List.mem_cons_self, rfl, rfl⟩
          · exact hrest h
      | oneof node =>
          rcases List.mem_cons.mp h with rfl | h
          · cases node
            exact ⟨_, List.mem_cons_self, rfl, rfl⟩
          · exact hrest h
      | polymorph node =>
          rcases List.mem_cons.mp h with rfl | h
          · exact ⟨_, List.mem_cons_self, rfl, rfl⟩
          · exact hrest h

theorem isMapEntry_draft {c : Conversion} {outer : String} {nodes : List SchemaNode}
    {draft : MessageDraft} (h : draft ∈ c.messageDrafts outer nodes) :
    draft.descriptor.isMapEntry = false := by
  obtain ⟨-, -, -, hentry⟩ := exists_of_mem_messageDrafts h
  exact hentry

theorem isMapEntry_messageDrafts {c : Conversion} {outer : String} {nodes : List SchemaNode}
    {m : MessageDescriptor} (h : m ∈ MessageDraft.descriptors (c.messageDrafts outer nodes)) :
    m.isMapEntry = false := by
  rw [MessageDraft.descriptors_eq] at h
  obtain ⟨draft, hdraft, rfl⟩ := List.mem_map.mp h
  exact isMapEntry_draft hdraft

/-- The elements that schemas become, where `nest` leads to what they stand in. -/
def schemaElements (c : Conversion) (outer : String) (nest : List String) (nodes : List SchemaNode) :
    List PlacedElement :=
  MessageDescriptor.elementsList nest (MessageDraft.descriptors (c.messageDrafts outer nodes)) ++
    EnumDescriptor.elements nest ((enumDrafts nodes).map EnumDraft.descriptor)

/-- The message of an object comes first, and then what its nested schemas become. -/
theorem elements_objectDraft (c : Conversion) (outer : String) (nest : List String)
    (node : ObjectNode) :
    (c.objectDraft outer node).descriptor.elements nest =
      (nest ++ [node.head.name], .message (c.objectDraft outer node).descriptor) ::
        c.schemaElements (outer ++ "." ++ node.head.name) (nest ++ [node.head.name]) node.nested := by
  obtain ⟨head, properties, nested, entity, polymorphMember⟩ := node
  rw [objectDraft, MessageDraft.elements_descriptor rfl, MessageDraft.descriptors_append,
    MessageDescriptor.elementsList_append, elementsList_entries]
  rfl

theorem elements_oneofDraft (c : Conversion) (outer : String) (nest : List String)
    (node : OneofNode) :
    (c.oneofDraft outer node).descriptor.elements nest =
      (nest ++ [node.head.name], .message (c.oneofDraft outer node).descriptor) ::
        c.schemaElements (outer ++ "." ++ node.head.name) (nest ++ [node.head.name]) node.nested := by
  obtain ⟨head, properties, nested, entity⟩ := node
  rw [oneofDraft, MessageDraft.elements_descriptor rfl, MessageDraft.descriptors_append,
    MessageDescriptor.elementsList_append, elementsList_entries]
  rfl

theorem elements_polymorphDraft (node : PolymorphNode) (nest : List String) :
    (polymorphDraft node).descriptor.elements nest =
      [(nest ++ [node.head.name], .message (polymorphDraft node).descriptor)] :=
  MessageDraft.elements_descriptor rfl nest

end Conversion
end Schematic
