import Schematic.Proofs.Acyclic
import Schematic.Proofs.Conversion.Inline
import Schematic.Proofs.Conversion.Origins
import Schematic.Proofs.FileName

/-!
# Imports between the files of a document

A document becomes a main file, a file of services and a file of topics.  One of them imports another
when a field in it finds a type that is declared there, and for no other reason: options need
standard files only, and an import by path of one of the three counts as used.  As long as requests,
responses and messages are found from their own file alone, these imports all lead to the main file.
A schema may name a request, though, and then two files can import each other.
-/

namespace Schematic

/-! ## Names of the three files -/

namespace FileName

/-- No standard file is named like a file of services or topics. -/
theorem subFile_not_standard (source folder : String) :
    subFile source folder ∉ Catalog.standardNames := by
  have hstandard : ∀ name ∈ Catalog.standardNames,
      ¬ ".p.j5s.proto".toList <:+ name.toList := by decide +kernel
  intro h
  obtain ⟨stem, hstem⟩ := exists_subFile_eq source folder
  refine hstandard _ h ⟨stem.toList, ?_⟩
  rw [hstem, String.toList_append]

end FileName

/-! ## Files that fields need -/

/-- The types that the fields of messages look up. -/
def Holder.lookups (holders : List Holder) : List RefName :=
  holders.flatMap fun h => PropertyNode.lookups h.properties

theorem Holder.lookups_append (a b : List Holder) : lookups (a ++ b) = lookups a ++ lookups b :=
  List.flatMap_append

theorem Holder.lookups_flatMap {α : Type} (items : List α) (holders : α → List Holder) :
    lookups (items.flatMap holders) = items.flatMap fun a => lookups (holders a) :=
  List.flatMap_assoc

namespace Conversion

variable {c : Conversion} {file : String}

theorem fileOf_append {a b : List RefName} :
    c.FileOf (a ++ b) file ↔ c.FileOf a file ∨ c.FileOf b file := by
  simp only [FileOf, List.mem_append, or_and_right, exists_or]

theorem fileOf_flatMap {α : Type} {items : List α} {names : α → List RefName} :
    c.FileOf (items.flatMap names) file ↔ ∃ a ∈ items, c.FileOf (names a) file := by
  constructor
  · rintro ⟨target, htarget, hfound⟩
    obtain ⟨a, ha, htarget⟩ := List.mem_flatMap.mp htarget
    exact ⟨a, ha, target, htarget, hfound⟩
  · rintro ⟨a, ha, target, htarget, hfound⟩
    exact ⟨target, List.mem_flatMap.mpr ⟨a, ha, htarget⟩, hfound⟩

/-- The files are standard ones and those of the types that are found under the names, each of them. -/
structure Gathers (c : Conversion) (files : List String) (names : List RefName) : Prop where
  origin : ∀ file ∈ files, file ∈ Catalog.standardNames ∨ c.FileOf names file
  found : ∀ file, c.FileOf names file → file ∈ files

namespace Gathers

theorem standard {files : List String} (h : ∀ file ∈ files, file ∈ Catalog.standardNames) :
    c.Gathers files [] where
  origin file hfile := Or.inl (h file hfile)
  found _ := fun ⟨_, htarget, _⟩ => absurd htarget List.not_mem_nil

theorem append {files files' : List String} {names names' : List RefName} (h : c.Gathers files names)
    (h' : c.Gathers files' names') : c.Gathers (files ++ files') (names ++ names') where
  origin file hfile := by
    rw [fileOf_append]
    rcases List.mem_append.mp hfile with hfile | hfile
    · exact (h.origin file hfile).imp id Or.inl
    · exact (h'.origin file hfile).imp id Or.inr
  found file hfile := by
    rcases fileOf_append.mp hfile with hfile | hfile
    · exact List.mem_append_left _ (h.found file hfile)
    · exact List.mem_append_right _ (h'.found file hfile)

theorem flatMap {α : Type} {items : List α} {files : α → List String} {names : α → List RefName}
    (h : ∀ a ∈ items, c.Gathers (files a) (names a)) :
    c.Gathers (items.flatMap files) (items.flatMap names) where
  origin file hfile := by
    obtain ⟨a, ha, hfile⟩ := List.mem_flatMap.mp hfile
    exact ((h a ha).origin file hfile).imp id fun hfound => fileOf_flatMap.mpr ⟨a, ha, hfound⟩
  found file hfile := by
    obtain ⟨a, ha, hfile⟩ := fileOf_flatMap.mp hfile
    exact List.mem_flatMap.mpr ⟨a, ha, (h a ha).found file hfile⟩

end Gathers

theorem gathers_parts {oneof : Option Int} {properties : List PropertyNode}
    (herrors : c.propertyErrors oneof properties = []) :
    c.Gathers (c.partImports oneof properties) (PropertyNode.lookups properties) where
  origin _ hfile := fileOf_of_partImports hfile
  found file hfile := by
    obtain ⟨p, hp, hfile⟩ := fileOf_flatMap.mp hfile
    obtain ⟨part, hpart⟩ := property_of_no_errors herrors hp
    have hmem : (p, part) ∈ c.parts "" oneof properties :=
      List.mem_filterMap.mpr ⟨p, hp, by rw [hpart]⟩
    refine List.mem_flatMap.mpr ⟨(p, part), hmem, ?_⟩
    unfold property at hpart
    split at hpart
    · cases hpart
    · obtain ⟨l, hlayout, hpart⟩ := bind_eq_ok hpart
      obtain ⟨⟨options, files⟩, -, hpart⟩ := bind_eq_ok hpart
      cases hpart
      exact List.mem_append_left _ ((mem_imports_layout hlayout).mpr hfile)

theorem gathers_extension {e : Extension} (he : e ∈ Extension.all) : c.Gathers [e.file] [] :=
  .standard fun _ hfile => List.mem_singleton.mp hfile ▸ Extension.file_mem_standardNames e he

theorem gathers_wellKnown (entry : RefName × String) (hentry : entry ∈ WellKnown.files) :
    c.Gathers [entry.2] [] :=
  .standard fun _ hfile => List.mem_singleton.mp hfile ▸ WellKnown.file_mem_standardNames entry hentry

mutual

theorem gathers_object : (node : ObjectNode) → c.objectErrors node = [] →
    c.Gathers (c.objectImports node) (Holder.lookups node.holders)
  | { head, properties, nested, entity, polymorphMember }, h => by
      rw [objectErrors, List.append_eq_nil_iff, List.append_eq_nil_iff] at h
      rw [objectImports, ObjectNode.holders]
      exact ((gathers_extension (by decide)).append (gathers_parts h.1.2)).append
        (gathers_schemas nested h.2)

theorem gathers_oneof : (node : OneofNode) → c.oneofErrors node = [] →
    c.Gathers (c.oneofImports node) (Holder.lookups node.holders)
  | { head, properties, nested, entity }, h => by
      rw [oneofErrors, List.append_eq_nil_iff] at h
      rw [oneofImports, OneofNode.holders]
      exact ((gathers_extension (by decide)).append (gathers_parts h.1)).append
        (gathers_schemas nested h.2)

theorem gathers_schemas : (nodes : List SchemaNode) → c.schemaErrorsList nodes = [] →
    c.Gathers (c.schemaImportsList nodes) (Holder.lookups (SchemaNode.holdersList nodes))
  | [], _ => .standard (by rw [schemaImportsList]; exact fun _ h => absurd h List.not_mem_nil)
  | .object node :: rest, h => by
      rw [schemaErrorsList, schemaErrors, List.append_eq_nil_iff] at h
      rw [schemaImportsList, schemaImports, SchemaNode.holdersList, SchemaNode.holders,
        Holder.lookups_append]
      exact (gathers_object node h.1).append (gathers_schemas rest h.2)
  | .oneof node :: rest, h => by
      rw [schemaErrorsList, schemaErrors, List.append_eq_nil_iff] at h
      rw [schemaImportsList, schemaImports, SchemaNode.holdersList, SchemaNode.holders,
        Holder.lookups_append]
      exact (gathers_oneof node h.1).append (gathers_schemas rest h.2)
  | .enum node :: rest, h => by
      rw [schemaErrorsList, List.append_eq_nil_iff] at h
      rw [schemaImportsList, schemaImports, SchemaNode.holdersList, SchemaNode.holders,
        Holder.lookups_append]
      refine .append ?_ (gathers_schemas rest h.2)
      split
      · exact gathers_extension (by decide)
      · exact .standard fun _ hfile => absurd hfile List.not_mem_nil
  | .polymorph node :: rest, h => by
      rw [schemaErrorsList, List.append_eq_nil_iff] at h
      rw [schemaImportsList, schemaImports, SchemaNode.holdersList, SchemaNode.holders,
        Holder.lookups_append]
      have hany : c.Gathers [WellKnown.anyFile] [] :=
        gathers_wellKnown (WellKnown.any, WellKnown.anyFile) (by decide)
      have hmessage : c.Gathers [Extension.message.file] [] := gathers_extension (by decide)
      exact (hany.append hmessage).append (gathers_schemas rest h.2)

end

theorem gathers_objects {objects : List ObjectNode} (h : objects.flatMap c.objectErrors = []) :
    c.Gathers (objects.flatMap c.objectImports)
      (Holder.lookups (objects.flatMap ObjectNode.holders)) := by
  rw [Holder.lookups_flatMap]
  exact .flatMap fun object hobject =>
    gathers_object object (List.flatMap_eq_nil_iff.mp h object hobject)

theorem gathers_service {node : ServiceNode} (h : c.rootErrors (.service node) = []) :
    c.Gathers (c.serviceImports node) (Holder.lookups (node.objects.flatMap ObjectNode.holders)) := by
  have hentity : c.Gathers (if node.entity.isSome then [Extension.service.file] else []) [] := by
    split
    · exact gathers_extension (by decide)
    · exact .standard fun _ hfile => absurd hfile List.not_mem_nil
  refine (hentity.append (.standard fun file hfile => ?_)).append (gathers_objects h)
  obtain ⟨m, -, hfile⟩ := List.mem_flatMap.mp hfile
  obtain ⟨⟨e, body⟩, he, rfl⟩ := List.mem_map.mp hfile
  exact Extension.file_mem_standardNames e (level_of_methodOptions _ he).1

theorem gathers_topic {node : TopicNode} (h : c.rootErrors (.topic node) = []) :
    c.Gathers (c.topicImports node) (Holder.lookups (node.objects.flatMap ObjectNode.holders)) := by
  have hmessaging : c.Gathers [Extension.messaging.file] [] := gathers_extension (by decide)
  have hempty : c.Gathers [WellKnown.emptyFile] [] :=
    gathers_wellKnown (WellKnown.empty, WellKnown.emptyFile) (by decide)
  exact (hmessaging.append hempty).append (gathers_objects h)

end Conversion

/-! ## Imports between files -/

/-- The imports of files that are files of the list themselves. -/
def FileDescriptor.ImportsAmong (files : List FileDescriptor) (a b : String) : Prop :=
  ∃ f ∈ files, f.nameText = a ∧ b ∈ f.dependencies ∧ b ∈ files.map FileDescriptor.nameText

/-- The types that the fields of a node look up. -/
def RootNode.named : RootNode → List RefName
  | .schema node => Holder.lookups node.holders
  | .service node => Holder.lookups (node.objects.flatMap ObjectNode.holders)
  | .topic node => Holder.lookups (node.objects.flatMap ObjectNode.holders)

namespace Document

variable {d : Document} {r : Resolver}

/-- The file that a node goes to. -/
def fileOf (d : Document) : RootNode → String
  | .schema _ => FileName.mainFile d.path
  | .service _ => d.serviceFile
  | .topic _ => d.topicFile

/-- A field in one file finds a type that is declared in another. -/
def Names (d : Document) (r : Resolver) (a b : String) : Prop :=
  ∃ node ∈ d.nodes, d.fileOf node = a ∧ (d.conversion r).FileOf node.named b

/-- The types of services and topics are found only by the fields of their own file. -/
def PrivatePayloads (d : Document) (r : Resolver) : Prop :=
  ∀ node ∈ d.nodes, ∀ target ∈ node.named, ∀ t ∈ ((d.conversion r).lookup target).toOption,
    t ∈ d.nodes.flatMap d.payloadTypes → t.file = d.fileOf node

instance (d : Document) (r : Resolver) : Decidable (d.PrivatePayloads r) :=
  inferInstanceAs (Decidable (∀ node ∈ d.nodes, ∀ target ∈ node.named,
    ∀ t ∈ ((d.conversion r).lookup target).toOption,
      t ∈ d.nodes.flatMap d.payloadTypes → t.file = d.fileOf node))

theorem serviceFile_ne_topicFile (d : Document) : d.serviceFile ≠ d.topicFile :=
  FileName.subFile_ne d.path (by decide)

theorem gathers_services (hnone : d.conversionErrors r = []) :
    (d.conversion r).Gathers
      ((RootNode.services d.nodes).flatMap (d.conversion r).serviceImports)
      ((RootNode.services d.nodes).flatMap fun node => (RootNode.service node).named) :=
  .flatMap fun _ hnode => Conversion.gathers_service
    (rootErrors_of_no_errors hnone (RootNode.mem_services.mp hnode))

theorem gathers_topics (hnone : d.conversionErrors r = []) :
    (d.conversion r).Gathers
      ((RootNode.topics d.nodes).flatMap (d.conversion r).topicImports)
      ((RootNode.topics d.nodes).flatMap fun node => (RootNode.topic node).named) :=
  .flatMap fun _ hnode => Conversion.gathers_topic
    (rootErrors_of_no_errors hnone (RootNode.mem_topics.mp hnode))

theorem fileOf_eq_main {n : RootNode} :
    d.fileOf n = FileName.mainFile d.path ↔ ∃ node, n = .schema node := by
  cases n with
  | schema node => exact ⟨fun _ => ⟨node, rfl⟩, fun _ => rfl⟩
  | service _ | topic _ =>
      exact ⟨fun h => absurd h.symm (FileName.mainFile_ne_subFile _ _), fun ⟨_, h⟩ => by cases h⟩

theorem fileOf_eq_service {n : RootNode} : d.fileOf n = d.serviceFile ↔ ∃ node, n = .service node := by
  cases n with
  | schema _ =>
      exact ⟨fun h => absurd h (FileName.mainFile_ne_subFile _ _), fun ⟨_, h⟩ => by cases h⟩
  | service node => exact ⟨fun _ => ⟨node, rfl⟩, fun _ => rfl⟩
  | topic _ => exact ⟨fun h => absurd h.symm d.serviceFile_ne_topicFile, fun ⟨_, h⟩ => by cases h⟩

theorem fileOf_eq_topic {n : RootNode} : d.fileOf n = d.topicFile ↔ ∃ node, n = .topic node := by
  cases n with
  | schema _ =>
      exact ⟨fun h => absurd h (FileName.mainFile_ne_subFile _ _), fun ⟨_, h⟩ => by cases h⟩
  | service _ => exact ⟨fun h => absurd h d.serviceFile_ne_topicFile, fun ⟨_, h⟩ => by cases h⟩
  | topic node => exact ⟨fun _ => ⟨node, rfl⟩, fun _ => rfl⟩

/-- What a file names is what the nodes of its kind name. -/
theorem names_iff {α : Type} {kind : α → RootNode} {nodes : List α} {file b : String}
    (hmem : ∀ {node}, node ∈ nodes ↔ kind node ∈ d.nodes)
    (hfile : ∀ {n}, d.fileOf n = file ↔ ∃ node, n = kind node) :
    (d.conversion r).FileOf (nodes.flatMap fun node => (kind node).named) b ↔ d.Names r file b := by
  rw [Conversion.fileOf_flatMap]
  constructor
  · rintro ⟨node, hnode, hfound⟩
    exact ⟨kind node, hmem.mp hnode, hfile.mpr ⟨node, rfl⟩, hfound⟩
  · rintro ⟨n, hn, heq, hfound⟩
    obtain ⟨node, rfl⟩ := hfile.mp heq
    exact ⟨node, hmem.mpr hn, hfound⟩

/-- The files of a list are standard ones and those that a file names, each of them. -/
structure Serves (d : Document) (r : Resolver) (file : String) (files : List String) : Prop where
  origin : ∀ b ∈ files, b ∈ Catalog.standardNames ∨ d.Names r file b
  found : ∀ b, d.Names r file b → b ∈ files

theorem Serves.of_gathers {file : String} {files : List String} {names : List RefName}
    (h : (d.conversion r).Gathers files names)
    (hnames : ∀ {b}, (d.conversion r).FileOf names b ↔ d.Names r file b) : d.Serves r file files where
  origin b hb := (h.origin b hb).imp id hnames.mp
  found b hb := h.found b (hnames.mpr hb)

/-- A draft imports what its file needs.  The main file has the idle imports too, and none of them is a
file of the document. -/
theorem imports_of_draft (hnone : d.conversionErrors r = []) {draft : FileDraft}
    (hdraft : draft ∈ d.drafts (d.conversion r) d.nodes) :
    ∃ needed idle, draft.imports = needed ++ idle ∧ d.Serves r draft.name needed ∧
      ∀ file ∈ idle, file ∉ (d.drafts (d.conversion r) d.nodes).map FileDraft.name := by
  rcases List.mem_cons.mp hdraft with rfl | hother
  · have hschemas := Conversion.gathers_schemas _ (schemaErrors_of_no_errors hnone)
    refine ⟨_, _, rfl, .of_gathers hschemas ?_, ?_⟩
    · rw [SchemaNode.holdersList_eq, Holder.lookups_flatMap]
      exact names_iff RootNode.mem_schemas fileOf_eq_main
    · intro file hidle hname
      -- An import by path is idle only if no draft has it, and a draft has its own name.
      have hnot := (List.mem_filter.mp hidle).2
      rw [Bool.not_eq_true', List.any_eq_false] at hnot
      obtain ⟨other, hother, rfl⟩ := List.mem_map.mp hname
      rcases List.mem_cons.mp hother with rfl | hother
      · exact hnot _ List.mem_cons_self (by simp [FileDraft.hasImport])
      · exact hnot _ (List.mem_cons_of_mem _ hother) (by simp [FileDraft.hasImport])
  · refine ⟨draft.imports, [], (List.append_nil _).symm, ?_, fun _ h => absurd h List.not_mem_nil⟩
    rcases List.mem_append.mp hother with hother | hother
    · rw [Option.mem_toList, serviceDraft?] at hother
      split at hother
      · cases hother
      · cases hother
        exact .of_gathers (gathers_services hnone) (names_iff RootNode.mem_services fileOf_eq_service)
    · rw [Option.mem_toList, topicDraft?] at hother
      split at hother
      · cases hother
      · cases hother
        exact .of_gathers (gathers_topics hnone) (names_iff RootNode.mem_topics fileOf_eq_topic)

theorem main_or_not_standard {c : Conversion} {draft : FileDraft} (h : draft ∈ d.drafts c d.nodes) :
    draft.name = FileName.mainFile d.path ∨ draft.name ∉ Catalog.standardNames := by
  rcases List.mem_cons.mp h with rfl | h
  · exact Or.inl rfl
  · right
    rcases name_of_mem_others h with hname | hname
    · exact hname ▸ FileName.subFile_not_standard _ _
    · exact hname ▸ FileName.subFile_not_standard _ _

/-- Another file of the document is imported because a field names it, unless it is a standard one. -/
theorem names_of_dependency (hnone : d.conversionErrors r = []) {draft : FileDraft}
    (hdraft : draft ∈ d.drafts (d.conversion r) d.nodes) {file : String}
    (hfile : file ∈ draft.dependencies)
    (hown : file ∈ (d.drafts (d.conversion r) d.nodes).map FileDraft.name)
    (hstandard : file ∉ Catalog.standardNames) : draft.name ≠ file ∧ d.Names r draft.name file := by
  obtain ⟨himport, hne⟩ := FileDraft.mem_dependencies.mp hfile
  obtain ⟨needed, idle, himports, hserves, hidle⟩ := imports_of_draft hnone hdraft
  rw [himports, List.mem_append] at himport
  rcases himport with hneeded | hfile
  · exact ⟨hne.symm, (hserves.origin file hneeded).resolve_left hstandard⟩
  · exact absurd hown (hidle file hfile)

/-- Where payloads are private, a file names no other file of the document but the main one. -/
theorem eq_main_of_names {names : List String} (hprivate : d.PrivatePayloads r)
    (hr : ∀ package name t, r package name = .ok t → t.file ∉ names) {a b : String} (hb : b ∈ names)
    (hstandard : b ∉ Catalog.standardNames) (hne : a ≠ b) (hnames : d.Names r a b) :
    b = FileName.mainFile d.path := by
  obtain ⟨node, hnode, rfl, target, htarget, t, ht, rfl⟩ := hnames
  rcases type_of_lookup ht with htype | hfile | hresolved
  · rcases List.mem_append.mp htype with hpayload | hmain
    · have hown := hprivate node hnode target htarget t (by rw [ht]; rfl) hpayload
      exact absurd hown.symm hne
    · exact SchemaNode.file_of_declaredList _ hmain
  · exact absurd hfile hstandard
  · exact absurd hb (hr _ _ t hresolved)

/-- The files of a document import each other where a field of one finds a type of the other.  There is
no circle in this as long as the types of services and topics are found only from their own file. -/
theorem convert_imports_acyclic {files : List FileDescriptor} (h : d.convert r = .ok files)
    (hr : ∀ package name t, r package name = .ok t →
      t.file ∉ files.map FileDescriptor.nameText) :
    (d.PrivatePayloads r → Acyclic (FileDescriptor.ImportsAmong files)) ∧
    (FileName.mainFile d.path ∉ Catalog.standardNames → ∀ a b,
      FileDescriptor.ImportsAmong files a b ↔ a ≠ b ∧ a ∈ files.map FileDescriptor.nameText ∧
        b ∈ files.map FileDescriptor.nameText ∧ d.Names r a b) := by
  obtain ⟨hnone, rfl⟩ := convert_eq_ok h
  have hnames : ((d.drafts (d.conversion r) d.nodes).map FileDraft.descriptor).map
      FileDescriptor.nameText = (d.drafts (d.conversion r) d.nodes).map FileDraft.name :=
    List.map_map
  rw [hnames] at hr ⊢
  constructor
  · intro hprivate
    refine .of_rank (fun a => if a = FileName.mainFile d.path then 1 else 0) ?_
    rintro a b ⟨f, hf, rfl, himport, hb⟩
    obtain ⟨draft, hdraft, rfl⟩ := List.mem_map.mp hf
    rw [hnames] at hb
    have hne : b ≠ draft.name := (FileDraft.mem_dependencies.mp himport).2
    have hmain : b = FileName.mainFile d.path := by
      obtain ⟨other, hother, rfl⟩ := List.mem_map.mp hb
      rcases main_or_not_standard hother with hname | hstandard
      · exact hname
      · obtain ⟨hne, hnames⟩ := names_of_dependency hnone hdraft himport hb hstandard
        exact eq_main_of_names hprivate hr hb hstandard hne hnames
    rw [if_pos hmain, if_neg fun ha => hne (hmain.trans ha.symm)]
    exact Nat.zero_lt_one
  · intro hmain a b
    constructor
    · rintro ⟨f, hf, rfl, himport, hb⟩
      obtain ⟨draft, hdraft, rfl⟩ := List.mem_map.mp hf
      rw [hnames] at hb
      have hstandard : b ∉ Catalog.standardNames := by
        obtain ⟨other, hother, rfl⟩ := List.mem_map.mp hb
        exact (main_or_not_standard hother).elim (fun hname => hname ▸ hmain) id
      obtain ⟨hne, hnamed⟩ := names_of_dependency hnone hdraft himport hb hstandard
      exact ⟨hne, List.mem_map_of_mem hdraft, hb, hnamed⟩
    · rintro ⟨hne, ha, hb, hnamed⟩
      obtain ⟨draft, hdraft, rfl⟩ := List.mem_map.mp ha
      obtain ⟨needed, idle, himports, hserves, -⟩ := imports_of_draft hnone hdraft
      have himport : b ∈ draft.imports := by
        rw [himports]
        exact List.mem_append_left _ (hserves.found b hnamed)
      exact ⟨draft.descriptor, List.mem_map_of_mem hdraft, rfl,
        FileDraft.mem_dependencies.mpr ⟨himport, hne.symm⟩, hnames ▸ hb⟩

/-- A parcel can be asked for with a filter, and a message tells where it went.  The file of the request
is imported by path. -/
def depot : Document where
  path := "p/v1/p.j5s"
  package := "p.v1"
  imports := [{ path := some "p/v1/service/p.p.j5s.proto" }]
  elements :=
    [.object { name := "Parcel", properties := [{ name := "weight", schema := .decimal none }] },
     .service { name := some "Parcel", methods := [{ name := "Get", request :=
        [{ name := "filter", schema := .object (.inline { name := "", properties :=
            [{ name := "like", schema := .object (.named ⟨none, "Parcel"⟩) false }] }) false }] }] },
     .topic { name := "Parcel", kind := .publish [{ name := "Moved", properties :=
        [{ name := "parcel", schema := .object (.named ⟨none, "Parcel"⟩) false }] }] }]

theorem convert_imports_acyclic_depot : ∃ files, depot.convert (TypeTable.resolve {}) = .ok files ∧
    depot.PrivatePayloads (TypeTable.resolve {}) ∧
    FileName.mainFile depot.path ∉ Catalog.standardNames ∧
    FileDescriptor.ImportsAmong files "p/v1/service/p.p.j5s.proto" "p/v1/p.j5s.proto" ∧
    FileDescriptor.ImportsAmong files "p/v1/topic/p.p.j5s.proto" "p/v1/p.j5s.proto" ∧
    Acyclic (FileDescriptor.ImportsAmong files) ∧
    ∀ a b, FileDescriptor.ImportsAmong files a b ↔ a ≠ b ∧ a ∈ files.map FileDescriptor.nameText ∧
      b ∈ files.map FileDescriptor.nameText ∧ depot.Names (TypeTable.resolve {}) a b := by
  obtain ⟨files, hconvert⟩ : ∃ files, depot.convert (TypeTable.resolve {}) = .ok files :=
    exists_convert (by decide +kernel)
  have hprivate : depot.PrivatePayloads (TypeTable.resolve {}) := by decide +kernel
  have hmain : FileName.mainFile depot.path ∉ Catalog.standardNames := by decide +kernel
  obtain ⟨hacyclic, hexact⟩ := convert_imports_acyclic hconvert fun package name t ht => by cases ht
  obtain ⟨-, rfl⟩ := convert_eq_ok hconvert
  refine ⟨_, hconvert, hprivate, hmain, ?_, ?_, hacyclic hprivate, hexact hmain⟩
  · unfold FileDescriptor.ImportsAmong
    decide +kernel
  · unfold FileDescriptor.ImportsAmong
    decide +kernel

/-- A schema has a field for the request of a method, and the request one for the schema. -/
def receipts : Document where
  path := "foo/v1/foo.j5s"
  package := "foo.v1"
  elements :=
    [.object { name := "Foo", properties :=
        [{ name := "request", schema := .object (.named ⟨none, "GetRequest"⟩) false }] },
     .service { name := some "Foo", methods := [{ name := "Get", request :=
        [{ name := "foo", schema := .object (.named ⟨none, "Foo"⟩) false }] }] }]

/-- The two files of such a document import each other. -/
theorem convert_circle_receipts : ∃ files, receipts.convert (TypeTable.resolve {}) = .ok files ∧
    (∀ package name t, TypeTable.resolve {} package name = .ok t →
      t.file ∉ files.map FileDescriptor.nameText) ∧
    ¬ Acyclic (FileDescriptor.ImportsAmong files) := by
  obtain ⟨files, hconvert⟩ : ∃ files, receipts.convert (TypeTable.resolve {}) = .ok files :=
    exists_convert (by decide +kernel)
  refine ⟨files, hconvert, fun package name t ht => (by cases ht), fun hacyclic => ?_⟩
  obtain ⟨-, rfl⟩ := convert_eq_ok hconvert
  refine hacyclic "foo/v1/foo.j5s.proto"
    (.tail (.single (b := "foo/v1/service/foo.p.j5s.proto") ?_) ?_)
  · unfold FileDescriptor.ImportsAmong
    decide +kernel
  · unfold FileDescriptor.ImportsAmong
    decide +kernel

end Document
end Schematic
