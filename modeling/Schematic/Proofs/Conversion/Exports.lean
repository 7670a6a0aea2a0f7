import Schematic.Proofs.Conversion.Elements
import Schematic.Proofs.Node.Named
import Mathlib.Data.List.Nodup

/-!
# Exports

A summary says what a document declares before it is converted.  Each of its exports is an element
of the main file, under the same name, and each element is an export.  The summary that the main
file has as a descriptor says the same, down to the prefixes and the values of enums.
-/

namespace Schematic

/-! ## Types of elements -/

/-- What an element is as a type.  Of a message a descriptor does not tell more. -/
def TypeElement.kind : TypeElement → TypeKind
  | .message _ => .object none
  | .enum e => .enum e.table

def PlacedElement.type (package file : String) (e : PlacedElement) : TypeRef :=
  ⟨package, e.name, file, e.2.kind⟩

/-- What of a kind a descriptor tells: enums are enums, and all else are messages. -/
def TypeKind.outline : TypeKind → TypeKind
  | .enum table => .enum table
  | _ => .object none

/-- A type as a descriptor tells it. -/
def TypeRef.outline (t : TypeRef) : TypeRef :=
  { t with kind := t.kind.outline }

/-- Whether a kind of type fits an element: that of an enum has the names and numbers of the enum's
values, and every other kind stands for a message. -/
def TypeKind.Fits : TypeKind → TypeElement → Prop
  | .enum table, .enum e => table.values = e.values.map fun v => (v.nameText, v.number.getD 0)
  | .enum _, .message _ => False
  | _, .message _ => True
  | _, .enum _ => False

theorem TypeKind.fits_of_outline {kind : TypeKind} {element : TypeElement}
    (h : kind.outline = element.kind) : kind.Fits element := by
  cases element with
  | message m =>
      cases kind with
      | enum table => cases h
      | _ => trivial
  | enum e =>
      cases kind with
      | enum table =>
          cases h
          rfl
      | _ => cases h

/-! ## Types of schemas -/

namespace Conversion

variable (c : Conversion) {package file : String}

mutual

theorem outline_object (outer : String) {nest : List String} : (node : ObjectNode) →
    node.StandsIn nest →
      ((node.declared package file).map TypeRef.outline).Perm
        (((c.objectDraft outer node).descriptor.elements nest).map (PlacedElement.type package file))
  | { head, properties, nested, entity, polymorphMember }, ⟨hnest, hnested⟩ => by
      rw [Head.childNest, hnest] at hnested
      have hinner := outline_schemas (outer ++ "." ++ head.name) nested hnested
      rw [elements_objectDraft, ObjectNode.declared, Head.nameInPackage, Head.childNest, hnest]
      exact hinner.cons _

theorem outline_oneof (outer : String) {nest : List String} : (node : OneofNode) →
    node.StandsIn nest →
      ((node.declared package file).map TypeRef.outline).Perm
        (((c.oneofDraft outer node).descriptor.elements nest).map (PlacedElement.type package file))
  | { head, properties, nested, entity }, ⟨hnest, hnested⟩ => by
      rw [Head.childNest, hnest] at hnested
      have hinner := outline_schemas (outer ++ "." ++ head.name) nested hnested
      rw [elements_oneofDraft, OneofNode.declared, Head.nameInPackage, Head.childNest, hnest]
      exact hinner.cons _

/-- Each schema becomes one element, under its name and with its values.  Messages come before
enums, so that the order may change. -/
theorem outline_schemas (outer : String) {nest : List String} : (nodes : List SchemaNode) →
    SchemaNode.AllStandIn nest nodes →
      ((SchemaNode.declaredList package file nodes).map TypeRef.outline).Perm
        ((c.schemaElements outer nest nodes).map (PlacedElement.type package file))
  | [], _ => List.Perm.refl _
  | .object node :: rest, ⟨hnode, hrest⟩ => by
      have htypes := (outline_object outer node hnode).append (outline_schemas outer rest hrest)
      rw [← List.map_append, ← List.map_append] at htypes
      rw [schemaElements, messageDrafts, MessageDraft.descriptors, MessageDescriptor.elementsList,
        List.append_assoc]
      exact htypes
  | .oneof node :: rest, ⟨hnode, hrest⟩ => by
      have htypes := (outline_oneof outer node hnode).append (outline_schemas outer rest hrest)
      rw [← List.map_append, ← List.map_append] at htypes
      rw [schemaElements, messageDrafts, MessageDraft.descriptors, MessageDescriptor.elementsList,
        List.append_assoc]
      exact htypes
  | .polymorph node :: rest, ⟨hnode, hrest⟩ => by
      have htypes := outline_schemas outer rest hrest
      rw [schemaElements, messageDrafts, MessageDraft.descriptors, MessageDescriptor.elementsList,
        List.append_assoc, elements_polymorphDraft, SchemaNode.declaredList, SchemaNode.declared,
        Head.nameInPackage, Head.childNest, hnode]
      exact htypes.cons _
  | .enum node :: rest, ⟨hnode, hrest⟩ => by
      have htypes := outline_schemas outer rest hrest
      have htype : TypeRef.outline ⟨package, Text.join "." (nest ++ [node.head.name]), file,
          .enum node.table⟩ =
          PlacedElement.type package file
            (nest ++ [node.head.name], .enum (enumDraft node).descriptor) := by
        rw [PlacedElement.type, TypeElement.kind, table_enumDraft]
        rfl
      rw [SchemaNode.declaredList, SchemaNode.declared, Head.nameInPackage, Head.childNest, hnode]
      refine (htypes.cons _).trans ?_
      rw [htype, schemaElements, schemaElements, messageDrafts, List.map_append, List.map_append]
      exact List.perm_middle.symm

end

end Conversion

/-! ## Types of a descriptor -/

theorem Text.join_concat {sep : String} {pieces : List String} (h : pieces ≠ []) (last : String) :
    join sep (pieces ++ [last]) = join sep pieces ++ sep ++ last := by
  induction pieces with
  | nil => exact absurd rfl h
  | cons first rest ih =>
      cases rest with
      | nil => rfl
      | cons second others =>
          rw [List.cons_append, List.cons_append, join_cons_cons, join_cons_cons, ← List.cons_append,
            ih (List.cons_ne_nil _ _), String.append_assoc, String.append_assoc, String.append_assoc,
            String.append_assoc, String.append_assoc]

namespace MessageDescriptor

variable {package file : String}

/-- A name inside what `outer` leads to.  At the top there is nothing to put before it. -/
theorem inner_eq {outer : List String} (houter : outer = [] ∨ Text.join "." outer ≠ "")
    (name : String) :
    (if Text.join "." outer = "" then name else Text.join "." outer ++ "." ++ name) =
      Text.join "." (outer ++ [name]) := by
  rcases houter with rfl | houter
  · exact if_pos rfl
  · rw [if_neg houter, Text.join_concat]
    rintro rfl
    exact houter rfl

theorem join_concat_ne_empty {outer : List String} (houter : outer = [] ∨ Text.join "." outer ≠ "")
    {name : String} (hname : outer = [] → name ≠ "") : Text.join "." (outer ++ [name]) ≠ "" := by
  by_cases hnil : outer = []
  · rw [hnil]
    exact hname hnil
  · rw [Text.join_concat hnil, String.append_assoc]
    intro h
    exact houter.resolve_left hnil (String.append_eq_empty_iff.mp h).1

theorem enumTypes_eq (outer : List String) (name : String) (enums : List EnumDescriptor) :
    (EnumDescriptor.elements (outer ++ [name]) enums).map (PlacedElement.type package file) =
      enums.map fun e =>
        ⟨package, Text.join "." (outer ++ [name]) ++ "." ++ e.nameText, file, .enum e.table⟩ := by
  rw [EnumDescriptor.elements, List.map_map]
  refine List.map_congr_left fun e _ => ?_
  have hjoin : Text.join "." (outer ++ [name] ++ [e.nameText]) =
      Text.join "." (outer ++ [name]) ++ "." ++ e.nameText :=
    Text.join_concat (List.append_ne_nil_of_right_ne_nil outer (List.cons_ne_nil name [])) e.nameText
  exact congrArg (fun text => (⟨package, text, file, .enum e.table⟩ : TypeRef)) hjoin

mutual

theorem types_eq {outer : List String} (houter : outer = [] ∨ Text.join "." outer ≠ "") :
    (m : MessageDescriptor) → (outer = [] → m.nameText ≠ "") →
      m.types package file (Text.join "." outer) = (m.elements outer).map (PlacedElement.type package file)
  | ⟨name, fields, nested, enums, ranges, extensions, options, oneofs, reserved, names⟩, hname => by
      by_cases hentry : (options.bind Options.mapEntry?).getD false = true
      · rw [types, if_pos hentry, elements_of_isMapEntry (by exact hentry)]
        rfl
      · have hnested := typesList_eq (Or.inr (join_concat_ne_empty houter hname)) nested fun _ _ h =>
          absurd h (List.append_ne_nil_of_right_ne_nil _ (List.cons_ne_nil _ _))
        rw [types, if_neg hentry, elements_of_not_isMapEntry (by exact Bool.eq_false_iff.mpr hentry)]
        simp only [inner_eq houter]
        rw [List.map_append, List.map_cons, enumTypes_eq]
        exact congrArg (fun l => _ :: l ++ _) hnested

theorem typesList_eq {outer : List String} (houter : outer = [] ∨ Text.join "." outer ≠ "") :
    (ms : List MessageDescriptor) → (∀ m ∈ ms, outer = [] → m.nameText ≠ "") →
      typesList package file (Text.join "." outer) ms =
        (elementsList outer ms).map (PlacedElement.type package file)
  | [], _ => rfl
  | m :: rest, hnames => by
      rw [typesList, elementsList, List.map_append, types_eq houter m (hnames m List.mem_cons_self),
        typesList_eq houter rest fun m hm => hnames m (List.mem_cons_of_mem _ hm)]

end

end MessageDescriptor

/-! ## The main file -/

theorem qualify_injective (scope : String) : Function.Injective (qualify scope) := by
  intro a b h
  by_cases hscope : scope = ""
  · rwa [qualify, qualify, if_pos hscope, if_pos hscope] at h
  · rw [qualify, qualify, if_neg hscope, if_neg hscope] at h
    exact (String.append_right_inj _).mp h

namespace Document

variable {d : Document} {r : Resolver} {files : List FileDescriptor}

/-- The main file of a document. -/
structure IsMain (d : Document) (f : FileDescriptor) : Prop where
  name : f.nameText = FileName.mainFile d.path
  package : f.packageText = d.package
  /-- Its elements are those of the document's schemas. -/
  outline : (d.mainTypes.map TypeRef.outline).Perm
    (f.elements.map (PlacedElement.type d.package (FileName.mainFile d.path)))
  /-- Nothing at its top is without a name. -/
  named : ∀ m ∈ f.messages, m.nameText ≠ ""

theorem exists_main (h : d.convert r = .ok files) :
    ∃ main others, files = main :: others ∧ d.IsMain main := by
  obtain ⟨-, rfl⟩ := convert_eq_ok h
  refine ⟨_, _, rfl, rfl, rfl, ?_, fun m hm => ?_⟩
  · exact (d.conversion r).outline_schemas d.package _ d.schemas_standIn
  · have hm : m ∈ MessageDraft.descriptors
        ((d.conversion r).messageDrafts d.package (RootNode.schemas d.nodes)) := hm
    rw [MessageDraft.descriptors_eq] at hm
    obtain ⟨draft, hdraft, rfl⟩ := List.mem_map.mp hm
    obtain ⟨node, hnode, hname, -⟩ := Conversion.exists_of_mem_messageDrafts hdraft
    have hnamed := d.nodes_named (.schema node) (RootNode.mem_schemas.mp hnode)
    have htext : draft.descriptor.nameText = draft.name := by
      obtain ⟨name, description, span, fields, oneofs, synthetic, nested, enums, options⟩ := draft
      rw [MessageDraft.descriptor]
      rfl
    rw [htext, hname]
    exact hnamed

/-- The types that the main file has as a descriptor are its elements. -/
theorem IsMain.types_eq {main : FileDescriptor} (hmain : d.IsMain main) :
    main.types = main.elements.map (PlacedElement.type d.package (FileName.mainFile d.path)) := by
  rw [FileDescriptor.types, FileDescriptor.elements, List.map_append, hmain.name, hmain.package]
  refine congrArg₂ (· ++ ·) ?_ ?_
  · exact MessageDescriptor.typesList_eq (Or.inl rfl) main.messages fun m hm _ => hmain.named m hm
  · rw [EnumDescriptor.elements, List.map_map]
    rfl

/-- A document that can be converted has a summary. -/
theorem summary_of_convert (h : d.convert r = .ok files) :
    d.summary = .ok (d.summaryOf d.nodes) := by
  have hnone : d.reachErrors = [] := by
    refine List.filterMap_eq_nil_iff.mpr fun outcome houtcome => ?_
    cases outcome with
    | ok nodes => rfl
    | error e => cases List.flatMap_eq_nil_iff.mp (convert_eq_ok h).1 _ houtcome
  rw [summary, if_pos (by rw [hnone]; rfl)]

theorem produces_of_convert (h : d.convert r = .ok files) :
    d.produces d.nodes = files.map FileDescriptor.nameText := by
  obtain ⟨-, rfl⟩ := convert_eq_ok h
  rw [produces, drafts, serviceDraft?, topicDraft?]
  split <;> split <;> rfl

theorem mem_exports {key : String} {t : TypeRef} (h : (key, t) ∈ (d.exports d.nodes).entries) :
    t ∈ d.mainTypes ∧ t.fullName = key := by
  obtain ⟨t', ht', heq⟩ := List.mem_map.mp (Dict.mem_of_mem_ofList h)
  cases heq
  exact ⟨ht', rfl⟩

theorem mem_keys_exports {key : String} :
    key ∈ (d.exports d.nodes).keys ↔ ∃ t ∈ d.mainTypes, t.fullName = key := by
  rw [exports, Dict.mem_keys_ofList, List.map_map, List.mem_map]
  rfl

/-- Each type of the document's schemas is an element of the main file. -/
theorem IsMain.exists_element {main : FileDescriptor} (hmain : d.IsMain main) {t : TypeRef}
    (ht : t ∈ d.mainTypes) : ∃ e ∈ main.elements,
      t.outline = PlacedElement.type d.package (FileName.mainFile d.path) e := by
  have hmem := hmain.outline.mem_iff.mp (List.mem_map_of_mem ht)
  obtain ⟨e, he, heq⟩ := List.mem_map.mp hmem
  exact ⟨e, he, heq.symm⟩

theorem IsMain.exists_type {main : FileDescriptor} (hmain : d.IsMain main) {e : PlacedElement}
    (he : e ∈ main.elements) : ∃ t ∈ d.mainTypes,
      t.outline = PlacedElement.type d.package (FileName.mainFile d.path) e := by
  have hmem := hmain.outline.mem_iff.mpr (List.mem_map_of_mem he)
  obtain ⟨t, ht, heq⟩ := List.mem_map.mp hmem
  exact ⟨t, ht, heq⟩

/-- The summary of a document says what its files will be: their names, and the elements of the main
file with their full names and what they are. -/
theorem summary_predicts (h : d.convert r = .ok files) :
    ∃ summary main others, d.summary = .ok summary ∧ files = main :: others ∧
      summary.produces = files.map FileDescriptor.nameText ∧
      (∀ key, key ∈ summary.exports.keys ↔
        ∃ e ∈ main.elements, PlacedElement.fullName main.packageText e = key) ∧
      ∀ key t, (key, t) ∈ summary.exports.entries → t.file = main.nameText ∧
        ∃ e ∈ main.elements, PlacedElement.fullName main.packageText e = key ∧ t.kind.Fits e.2 := by
  obtain ⟨main, others, hfiles, hmain⟩ := exists_main h
  refine ⟨_, main, others, summary_of_convert h, hfiles, produces_of_convert h, fun key => ?_,
    fun key t ht => ?_⟩
  · rw [hmain.package]
    refine mem_keys_exports.trans ⟨fun ⟨t, ht, hkey⟩ => ?_, fun ⟨e, he, hkey⟩ => ?_⟩
    · obtain ⟨e, he, heq⟩ := hmain.exists_element ht
      exact ⟨e, he, (congrArg TypeRef.fullName heq).symm.trans hkey⟩
    · obtain ⟨t, ht, heq⟩ := hmain.exists_type he
      exact ⟨t, ht, (congrArg TypeRef.fullName heq).trans hkey⟩
  · obtain ⟨ht, hkey⟩ := mem_exports ht
    obtain ⟨e, he, heq⟩ := hmain.exists_element ht
    rw [hmain.package, hmain.name]
    exact ⟨congrArg TypeRef.file heq, e, he, (congrArg TypeRef.fullName heq).symm.trans hkey,
      TypeKind.fits_of_outline (congrArg TypeRef.kind heq)⟩

/-- A shelf holds books by their titles, is of some kind and stands in some place.  It is told when
a book is taken. -/
def shelves : Document where
  path := "a/v1/a.j5s"
  package := "a.v1"
  elements :=
    [.object { name := "Shelf", schemas := [.oneof { name := "Place", properties :=
        [{ name := "room", schema := .string {} }, { name := "lent", schema := .bool {} }] }], properties :=
        [{ name := "books", schema := .map (.object (.inline { name := "", properties :=
            [{ name := "title", schema := .string {} }] }) false) {} },
         { name := "kind", schema := .enum (.inline { name := "", valuePrefix := some "K", options :=
            [{ name := "OPEN" }, { name := "CLOSED" }] }) {} none },
         { name := "place", schema := .oneof (.named ⟨none, "Shelf.Place"⟩) }] },
     .polymorph { name := "Item", members := ["a.v1.Shelf"] },
     .topic { name := "Shelf", kind := .publish [{ name := "Taken", properties :=
        [{ name := "shelf", schema := .object (.named ⟨none, "Shelf"⟩) false }] }] }]

theorem shelves_convert : ∃ files, shelves.convert (TypeTable.resolve {}) = .ok files :=
  exists_convert (by decide +kernel)

theorem summary_predicts_shelves : ∃ files, shelves.convert (TypeTable.resolve {}) = .ok files ∧
    files.map FileDescriptor.nameText = ["a/v1/a.j5s.proto", "a/v1/topic/a.p.j5s.proto"] ∧
    ∃ summary main others, shelves.summary = .ok summary ∧ files = main :: others ∧
      summary.produces = ["a/v1/a.j5s.proto", "a/v1/topic/a.p.j5s.proto"] ∧
      (∀ key, key ∈ summary.exports.keys ↔
        ∃ e ∈ main.elements, PlacedElement.fullName main.packageText e = key) ∧
      "a.v1.Shelf.Kind" ∈ summary.exports.keys := by
  obtain ⟨files, hconvert⟩ := shelves_convert
  have hnames := (produces_of_convert hconvert).symm
  obtain ⟨summary, main, others, hsummary, hfiles, hproduces, hkeys, -⟩ := summary_predicts hconvert
  refine ⟨files, hconvert, hnames.trans (by decide +kernel), summary, main, others, hsummary, hfiles,
    hproduces.trans (hnames.trans (by decide +kernel)), hkeys, ?_⟩
  have heq := Except.ok.inj (hsummary.symm.trans (summary_of_convert hconvert))
  rw [heq]
  decide +kernel

theorem nodup_fullNames (hnames : (d.mainTypes.map TypeRef.name).Nodup) :
    (d.mainTypes.map TypeRef.fullName).Nodup := by
  have hfull : d.mainTypes.map TypeRef.fullName =
      (d.mainTypes.map TypeRef.name).map (qualify d.package) := by
    rw [List.map_map]
    refine List.map_congr_left fun t ht => ?_
    rw [Function.comp, ← package_of_mem_mainTypes ht]
    rfl
  rw [hfull]
  exact hnames.map (qualify_injective d.package)

/-- As a descriptor, the main file has the summary that the document had. -/
theorem summary_descriptor (h : d.convert r = .ok files)
    (hnames : (d.mainTypes.map TypeRef.name).Nodup) :
    ∃ summary main others, d.summary = .ok summary ∧ files = main :: others ∧
      (∀ key, key ∈ main.summary.exports.keys ↔ key ∈ summary.exports.keys) ∧
      ∀ key, main.summary.exports.get? key = (summary.exports.get? key).map TypeRef.outline := by
  obtain ⟨main, others, hfiles, hmain⟩ := exists_main h
  -- Both sides have the same entries, those of the descriptor with messages before enums.
  have hentries : ((d.mainTypes.map fun t => (t.fullName, t)).map fun entry =>
      (entry.1, entry.2.outline)).Perm (main.types.map fun t => (t.fullName, t)) := by
    have hperm := hmain.outline.map fun t => (t.fullName, t)
    rw [List.map_map] at hperm ⊢
    rw [hmain.types_eq]
    exact hperm
  have hkeys : (((d.mainTypes.map fun t => (t.fullName, t)).map fun entry =>
      (entry.1, entry.2.outline)).map Prod.fst) = d.mainTypes.map TypeRef.fullName := by
    rw [List.map_map, List.map_map]
    rfl
  refine ⟨_, main, others, summary_of_convert h, hfiles, fun key => ?_, fun key => ?_⟩
  · refine Dict.mem_keys_ofList.trans (Iff.trans ?_ mem_keys_exports.symm)
    rw [← (hentries.map Prod.fst).mem_iff, hkeys, List.mem_map]
  · refine ((Dict.get?_ofList_perm hentries ?_ key).symm).trans (Dict.get?_ofList_map _ _ key)
    rw [hkeys]
    exact nodup_fullNames hnames

theorem summary_descriptor_shelves : ∃ files summary main others,
    shelves.convert (TypeTable.resolve {}) = .ok files ∧ (shelves.mainTypes.map TypeRef.name).Nodup ∧
      shelves.summary = .ok summary ∧ files = main :: others ∧
      summary.exports.keys = ["a.v1.Item", "a.v1.Shelf", "a.v1.Shelf.Books", "a.v1.Shelf.Kind",
        "a.v1.Shelf.Place"] ∧
      (∀ key, key ∈ main.summary.exports.keys ↔ key ∈ summary.exports.keys) ∧
      main.summary.exports.get? "a.v1.Shelf.Kind" = some ⟨"a.v1", "Shelf.Kind", "a/v1/a.j5s.proto",
        .enum ⟨"K_", [("K_UNSPECIFIED", 0), ("K_OPEN", 1), ("K_CLOSED", 2)]⟩⟩ := by
  obtain ⟨files, hconvert⟩ := shelves_convert
  have hnames : (shelves.mainTypes.map TypeRef.name).Nodup := by decide +kernel
  obtain ⟨summary, main, others, hsummary, hfiles, hkeys, hexports⟩ :=
    summary_descriptor hconvert hnames
  have heq := Except.ok.inj (hsummary.symm.trans (summary_of_convert hconvert))
  refine ⟨files, summary, main, others, hconvert, hnames, hsummary, hfiles, ?_, hkeys, ?_⟩
  · rw [heq]
    decide +kernel
  · rw [hexports, heq]
    decide +kernel

end Document
end Schematic
