import Schematic.Proofs.Conversion.Messages

/-!
# Entries of maps

A map becomes a repeated field of entries, and the entry is a message right inside the message that
has the field.  The field refers to it by its full name, so that the name made up while the message is
still being built has to be the one under which the entry ends up.
-/

namespace Schematic

theorem foldl_qualify_of_ne {package : String} (h : package ≠ "") (nest : List String) :
    nest.foldl qualify package = scopeOf package nest := by
  induction nest generalizing package with
  | nil => rfl
  | cons name rest ih =>
      have hne : package ++ "." ++ name ≠ "" := by
        simp [String.append_eq_empty_iff]
      rw [List.foldl_cons, qualify, if_neg h, ih hne]
      rfl

/-- A property with the values of its collection, but one of them only. -/
def PropertyNode.single (p : PropertyNode) : PropertyNode :=
  { p with field := p.field.item }

namespace Conversion

variable {c : Conversion}

/-! ## Entries and single values -/

/-- A map of the message `fullName`: its field and its entry.  The value in the entry has the type that
the property would have if it was no map. -/
structure MapInto (c : Conversion) (fullName : String) (p : PropertyNode) (f : FieldDescriptor)
    (entry : MessageDescriptor) : Prop where
  label : f.label = some FieldLabel.repeated
  type : f.type = some FieldType.message
  typeName : f.typeName = some ("." ++ fullName ++ "." ++ FileName.mapEntry f.nameText)
  name : entry.name = some (FileName.mapEntry f.nameText)
  isMapEntry : entry.isMapEntry = true
  fields : ∃ type typeName,
    entry.fields =
      [{ name := some "key", jsonName := some "key", number := some 1
         label := some FieldLabel.optional, type := some FieldType.string },
       { name := some "value", jsonName := some "value", number := some 2
         label := some FieldLabel.optional, type, typeName }] ∧
    (∃ l, c.layout fullName p.single = .ok l ∧ l.field.type = type ∧ l.field.typeName = typeName) ∧
    ∀ oneof part, c.property fullName oneof p.single = .ok part →
      part.field.type = type ∧ part.field.typeName = typeName

/-- The values of a property are no collections. -/
theorem layout_single {p : PropertyNode} {value : ValueType}
    (h : c.valueType p.name p.field.item = .ok value) (message : String) :
    ∃ l, c.layout message p.single = .ok l ∧ l.field.type = some value.code ∧
      l.field.typeName = value.typeName := by
  unfold layout PropertyNode.single
  dsimp only
  cases hitem : p.field.item with
  | array _ _ _ | map _ _ =>
      rw [hitem] at h
      cases h
  | _ =>
      rw [hitem] at h
      dsimp only
      rw [bind_of_ok h]
      exact ⟨_, rfl, rfl, rfl⟩

theorem property_single {p : PropertyNode} {value : ValueType}
    (h : c.valueType p.name p.field.item = .ok value) {message : String} {oneof : Option Int}
    {part : FieldPart} (hpart : c.property message oneof p.single = .ok part) :
    part.field.type = some value.code ∧ part.field.typeName = value.typeName := by
  obtain ⟨l, hl, htype, htypeName⟩ := layout_single h message
  unfold property at hpart
  split at hpart
  · cases hpart
  · obtain ⟨l', hl', hpart⟩ := bind_eq_ok hpart
    obtain ⟨_, -, hpart⟩ := bind_eq_ok hpart
    cases hpart
    cases hl.symm.trans hl'
    exact ⟨htype, htypeName⟩

/-- The part of a map, whatever oneof its field ends up in. -/
theorem Yields.mapInto {message : String} {oneof : Option Int} {p : PropertyNode} {part : FieldPart}
    (h : c.Yields message oneof p part) (hmap : p.isMap = true) (oneofIndex : Option Int) :
    ∃ entry, part.entry = some entry ∧
      c.MapInto message p { part.field with oneofIndex } entry.descriptor := by
  obtain ⟨value, hvalue, hlaid⟩ := h.laidOut
  cases hlaid with
  | single hkind =>
      rw [PropertyNode.isCollection, Bool.or_eq_false_iff] at hkind
      exact absurd (hmap.symm.trans hkind.2) (by decide)
  | array _ hnot => exact absurd (hmap.symm.trans hnot) (by decide)
  | map _ _ hlabel htype htypeName hentry =>
      have hname : part.field.nameText = Case.snake p.name := by
        rw [FieldDescriptor.nameText, h.shown.name]
        rfl
      refine ⟨_, hentry, hlabel, htype, ?_, ?_, rfl, some value.code, value.typeName, rfl,
        layout_single hvalue message, fun oneof part => property_single hvalue⟩
      · exact htypeName.trans (by rw [← hname]; rfl)
      · rw [← hname]
        rfl

theorem Yields.entry_eq_none {message : String} {oneof : Option Int} {p : PropertyNode}
    {part : FieldPart} (h : c.Yields message oneof p part) (hmap : p.isMap = false) :
    part.entry = none := by
  obtain ⟨value, -, hlaid⟩ := h.laidOut
  cases hlaid with
  | single _ _ _ _ hnone => exact hnone
  | array _ _ _ _ _ _ hnone => exact hnone
  | map htrue => exact absurd (htrue.symm.trans hmap) (by decide)

/-! ## Messages -/

/-- The maps of a message with full name `fullName` that is made from `node`: each property has its
field, and the entries are those of the maps among them, in their order. -/
structure MapsOf (c : Conversion) (fullName : String) (node : SchemaNode) (m : MessageDescriptor) :
    Prop where
  shown : ∀ (i : Nat) (p : PropertyNode), node.properties[i]? = some p →
    ∃ f, m.fields[i]? = some f ∧ p.ShownBy f
  entries : List.Forall₂ (fun x entry => c.MapInto fullName x.1 x.2 entry)
    ((node.properties.zip m.fields).filter fun x => x.1.isMap) m.mapEntries

/-- Fields and entries come from the same parts.  The induction is on these, and `next` is the oneof
that the next optional field gets. -/
theorem maps_fieldsFrom {message : String} {oneof : Option Int} {ps : List PropertyNode}
    {parts : List FieldPart} (h : List.Forall₂ (c.Yields message oneof) ps parts) (next : Nat) :
    List.Forall₂ (fun x entry => c.MapInto message x.1 x.2 entry)
      ((ps.zip (FieldPart.fieldsFrom next parts)).filter fun x => x.1.isMap)
      ((parts.filterMap FieldPart.entry).map MessageDraft.descriptor) := by
  induction h generalizing next with
  | nil => exact .nil
  | @cons p part ps parts hp _ ih =>
      obtain ⟨oneofIndex, next', hfields⟩ := FieldPart.exists_fieldsFrom_cons next part parts
      rw [hfields, List.zip_cons_cons]
      cases hmap : p.isMap with
      | true =>
          obtain ⟨entry, hentry, hinto⟩ := hp.mapInto hmap oneofIndex
          simp only [List.filter_cons, hmap, if_true, List.filterMap_cons_some hentry, List.map_cons]
          exact .cons hinto (ih next')
      | false =>
          simp only [List.filter_cons, hmap, Bool.false_eq_true, if_false,
            List.filterMap_cons_none (hp.entry_eq_none hmap)]
          exact ih next'

theorem Lays.maps {message : String} {oneof : Option Int} {oneofs : List OneofDescriptor}
    {node : SchemaNode} {m : MessageDescriptor} {parts : List FieldPart}
    (h : c.Lays message oneof oneofs node.properties m parts) : c.MapsOf message node m := by
  have hmaps := maps_fieldsFrom h.each oneofs.length
  rw [← h.fields, ← h.entries] at hmaps
  exact ⟨fun i p hp => exists_getElem?_of_forall₂ h.shown.flip hp, hmaps⟩

theorem Makes.maps {package : String} {node : SchemaNode} {placed : List String × MessageDescriptor}
    (h : c.Makes package node placed) : c.MapsOf (scopeOf package placed.1) node placed.2 := by
  cases h with
  | object laid => exact Lays.maps laid
  | oneof laid => exact Lays.maps laid
  | polymorph =>
      refine ⟨fun i p hp => ?_, .nil⟩
      have hnone : ([] : List PropertyNode)[i]? = some p := hp
      rw [List.getElem?_nil] at hnone
      cases hnone

end Conversion

/-! ## Files -/

/-- The maps of a file: those of every message that is listed, under its full name, and there are no
other messages but the entries in these. -/
structure FileNodes.MapsInto (c : Conversion) (nodes : FileNodes) (f : FileDescriptor) : Prop where
  messages : List.Forall₂
    (fun node placed => c.MapsOf (placed.1.foldl qualify f.packageText) node placed.2)
    nodes.schemas f.placedMessages
  everywhere : ∀ path m, f.part? path = some (.message m) →
    ∃ placed ∈ f.placedMessages, m = placed.2 ∨ m ∈ placed.2.mapEntries

theorem FileNodes.MadeInto.maps {c : Conversion} {nodes : FileNodes} {f : FileDescriptor}
    (h : nodes.MadeInto c f) (hpackage : f.packageText = nodes.package) (hne : nodes.package ≠ "") :
    nodes.MapsInto c f where
  messages := by
    refine h.messages.imp fun node placed hmakes => ?_
    rw [hpackage, foldl_qualify_of_ne hne]
    exact hmakes.maps
  everywhere _ _ := h.exists_placed

namespace Document

variable {d : Document} {r : Resolver} {files : List FileDescriptor}

theorem convert_packages (h : d.convert r = .ok files) :
    List.Forall₂ (fun nodes f => FileDescriptor.packageText f = FileNodes.package nodes)
      d.fileNodes files := by
  obtain ⟨hnone, rfl⟩ := convert_eq_ok h
  rw [fileNodes, drafts, List.map_cons, List.map_append]
  exact .cons (main_shownBy hnone _).package
    (List.rel_append ((serviceDraft?_shownBy hnone).imp fun _ _ h => h.package)
      ((topicDraft?_shownBy hnone).imp fun _ _ h => h.package))

theorem package_ne {nodes : FileNodes} (h : d.package ≠ "") (hnodes : nodes ∈ d.fileNodes) :
    nodes.package ≠ "" := by
  have hsub : ∀ folder, FileName.subPackage d.package folder ≠ "" := by
    intro folder
    simp [FileName.subPackage, String.append_eq_empty_iff]
  rw [fileNodes, List.mem_cons, List.mem_append] at hnodes
  rcases hnodes with rfl | hnodes | hnodes
  · exact h
  · split at hnodes
    · cases hnodes
    · rw [List.mem_singleton.mp hnodes]
      exact hsub _
  · split at hnodes
    · cases hnodes
    · rw [List.mem_singleton.mp hnodes]
      exact hsub _

/-- In every file of a document with a package, each map of a message has its entry right inside the
message and a field that refers to it, and there are no other entries. -/
theorem convert_mapEntries (h : d.convert r = .ok files) (hpackage : d.package ≠ "") :
    List.Forall₂ (FileNodes.MapsInto (d.conversion r)) d.fileNodes files := by
  have hpackages := (List.forall₂_and_left _ _).mpr
    ⟨fun nodes => package_ne hpackage, convert_packages h⟩
  exact hpackages.mp (fun nodes f hnodes hmade => hmade.maps hnodes.2 hnodes.1) (convert_makes h)

/-- Maps in an object, in one declared in place of the values of a map, in a oneof, in a request and in
the message of a topic. -/
def atlas : Document where
  path := "a/v1/a.j5s"
  package := "a.v1"
  elements :=
    [.object
      { name := "Atlas"
        properties :=
          [{ name := "title", optional := true, schema := .string {} },
           { name := "pagesByPlace", schema := .map (.object (.inline page) false) {} },
           { name := "notes", schema := .map (.string {}) {} }] },
     .oneof
      { name := "Index"
        properties :=
          [{ name := "words", schema := .map (.integer { format := .int64 }) {} },
           { name := "atlas", schema := .object (.named ⟨none, "Atlas"⟩) false }] },
     .service
      { name := some "Atlas"
        methods :=
          [{ name := "Find", request := [{ name := "wanted", schema := .map (.bool {}) {} }] }] },
     .topic
      { name := "Printed"
        kind := .publish
          [{ name := "Printed"
             properties :=
               [{ name := "copies", schema := .map (.object (.named ⟨none, "Atlas"⟩) false) {} }] }] }]
where
  page : ObjectDecl :=
    { name := "Page", properties := [{ name := "marks", schema := .map (.date none) {} }] }

theorem convert_mapEntries_atlas : ∃ files, atlas.convert (TypeTable.resolve {}) = .ok files ∧
    atlas.package ≠ "" ∧
    List.Forall₂ (FileNodes.MapsInto (atlas.conversion (TypeTable.resolve {}))) atlas.fileNodes files ∧
    (files.flatMap fun f => f.placedMessages.flatMap fun placed =>
      placed.2.fields.filterMap fun field =>
        if field.label = some FieldLabel.repeated then field.typeName else none) =
      [".a.v1.Atlas.PagesByPlaceEntry", ".a.v1.Atlas.NotesEntry", ".a.v1.Atlas.Page.MarksEntry",
        ".a.v1.Index.WordsEntry", ".a.v1.service.FindRequest.WantedEntry",
        ".a.v1.topic.PrintedMessage.CopiesEntry"] ∧
    (files.flatMap fun f => f.placedMessages.flatMap fun placed =>
      placed.2.mapEntries.map fun entry => (entry.nameText, entry.fields.map FieldDescriptor.typeName)) =
      [("PagesByPlaceEntry", [none, some ".a.v1.Atlas.Page"]), ("NotesEntry", [none, none]),
        ("MarksEntry", [none, some ".j5.types.date.v1.Date"]), ("WordsEntry", [none, none]),
        ("WantedEntry", [none, none]), ("CopiesEntry", [none, some ".a.v1.Atlas"])] := by
  obtain ⟨files, hconvert⟩ : ∃ files, atlas.convert (TypeTable.resolve {}) = .ok files :=
    exists_convert (by decide +kernel)
  have hpackage : atlas.package ≠ "" := by decide
  have hmaps := convert_mapEntries hconvert hpackage
  obtain ⟨-, rfl⟩ := convert_eq_ok hconvert
  exact ⟨_, hconvert, hpackage, hmaps, by decide +kernel, by decide +kernel⟩

end Document
end Schematic
