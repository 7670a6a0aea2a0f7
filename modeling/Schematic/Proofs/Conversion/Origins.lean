import Schematic.Proofs.Conversion.Dependencies

/-!
# Where imports come from

A converted document imports standard files, the files of the types that its fields name, and
the files that it says it imports.  Memberships of polymorphs are checked and import nothing.  So
every import is a standard file, a file of the document itself, one that its summary lists, or the
file of a type in its own package, in a well-known one or in a package that its summary lists.
-/

namespace Schematic

/-- The names of the standard files. -/
def Catalog.standardNames : List String :=
  standardFiles.map FileDescriptor.nameText

theorem Extension.file_mem_standardNames : ∀ e ∈ Extension.all, e.file ∈ Catalog.standardNames := by
  decide +kernel

theorem WellKnown.file_mem_standardNames : ∀ entry ∈ WellKnown.files,
    entry.2 ∈ Catalog.standardNames := by
  decide +kernel

namespace Conversion

variable {c : Conversion} {file : String}

/-! ## Fields -/

/-- The file of a type that is found under one of the names. -/
def FileOf (c : Conversion) (names : List RefName) (file : String) : Prop :=
  ∃ target ∈ names, ∃ t, c.lookup target = .ok t ∧ t.file = file

/-- What is found under a name has one file. -/
theorem fileOf_singleton {target : RefName} {t : TypeRef} (h : c.lookup target = .ok t) :
    c.FileOf [target] file ↔ file ∈ [t.file] := by
  constructor
  · rintro ⟨_, htarget, t', ht', rfl⟩
    cases List.mem_singleton.mp htarget
    cases ht'.symm.trans h
    exact List.mem_cons_self
  · intro hfile
    exact ⟨target, List.mem_cons_self, t, h, (List.mem_singleton.mp hfile).symm⟩

theorem mem_imports_builtin {target : RefName} {value : ValueType} (h : c.builtin target = .ok value) :
    file ∈ value.imports ↔ c.FileOf [target] file := by
  obtain ⟨found, hfound, h⟩ := bind_eq_ok h
  cases h
  exact (fileOf_singleton hfound).symm

theorem mem_imports_messageType {property expected : String} {target : RefName} {value : ValueType}
    (h : c.messageType property target expected = .ok value) :
    file ∈ value.imports ↔ c.FileOf [target] file := by
  obtain ⟨found, hfound, h⟩ := bind_eq_ok h
  split at h
  · cases h
    exact (fileOf_singleton hfound).symm
  · cases h

theorem mem_imports_enumType {property : String} {target : RefName} {value : ValueType}
    (h : c.enumType property target = .ok value) :
    file ∈ value.imports ↔ c.FileOf [target] file := by
  obtain ⟨found, hfound, h⟩ := bind_eq_ok h
  split at h
  · cases h
    exact (fileOf_singleton hfound).symm
  · cases h

theorem mem_imports_valueType (property : String) {f : FieldNode} {value : ValueType}
    (h : c.valueType property f = .ok value) : file ∈ value.imports ↔ c.FileOf f.lookups file := by
  cases f with
  | decimal _ | date _ | timestamp _ | any _ => exact mem_imports_builtin h
  | enum target _ _ => exact mem_imports_enumType h
  | object target _ | oneof target | polymorph target => exact mem_imports_messageType h
  | array _ _ _ | map _ _ => cases h
  | _ =>
      cases h
      exact ⟨fun hfile => (by cases hfile), fun ⟨_, htarget, _⟩ => (by cases htarget)⟩

theorem mem_imports_itemType {property outer : String} {f : FieldNode} {value : ValueType}
    (h : c.itemType property outer f = .ok value) :
    file ∈ value.imports ↔ c.FileOf f.lookups file := by
  cases f with
  | array _ _ _ | map _ _ => cases h
  | _ => exact mem_imports_valueType property h

/-- A property imports the files of the types that its field looks up, and no others. -/
theorem mem_imports_layout {message : String} {p : PropertyNode} {l : Layout}
    (h : c.layout message p = .ok l) : file ∈ l.imports ↔ c.FileOf p.field.lookups file := by
  unfold layout at h
  split at h
  · rename_i hfield
    rw [hfield, FieldNode.lookups]
    split at h
    · cases h
    · obtain ⟨value, hvalue, h⟩ := bind_eq_ok h
      cases h
      exact mem_imports_itemType hvalue
  · rename_i hfield
    rw [hfield, FieldNode.lookups]
    split at h
    · cases h
    · obtain ⟨value, hvalue, h⟩ := bind_eq_ok h
      cases h
      exact mem_imports_itemType hvalue
  · obtain ⟨value, hvalue, h⟩ := bind_eq_ok h
    cases h
    exact mem_imports_valueType p.name hvalue

theorem standard_of_fieldOptions {p : PropertyNode} {enum : Option Validation.EnumView}
    {options : Options} {files : List String} (h : fieldOptions p enum = .ok (options, files))
    (hfile : file ∈ files) : file ∈ Catalog.standardNames := by
  obtain ⟨validation, -, h⟩ := bind_eq_ok h
  obtain ⟨listing, -, h⟩ := bind_eq_ok h
  cases h
  obtain ⟨⟨e, body⟩, hused, rfl⟩ := List.mem_map.mp hfile
  refine Extension.file_mem_standardNames e ?_
  rcases List.mem_append.mp hused with hused | hused
  · rcases List.mem_cons.mp hused with heq | hused
    · cases heq
      decide
    · split at hused
      · cases hused
      · cases List.mem_singleton.mp hused
        decide
  · obtain ⟨_, -, heq⟩ := Option.map_eq_some_iff.mp (Option.mem_toList.mp hused)
    cases heq
    decide

/-- A file that is standard, or that of a type which a property or a kind of field names. -/
def Brings (c : Conversion) (references : List (RefName × Span)) (file : String) : Prop :=
  file ∈ Catalog.standardNames ∨ c.FileOf (references.map Prod.fst ++ builtins) file

theorem Brings.mono {references references' : List (RefName × Span)} (h : c.Brings references file)
    (hsub : references ⊆ references') : c.Brings references' file := by
  refine h.imp id ?_
  rintro ⟨target, htarget, hfound⟩
  refine ⟨target, ?_, hfound⟩
  rcases List.mem_append.mp htarget with htarget | htarget
  · exact List.mem_append_left _ (List.map_subset _ hsub htarget)
  · exact List.mem_append_right _ htarget

theorem fileOf_of_partImports {oneof : Option Int} {properties : List PropertyNode}
    (h : file ∈ c.partImports oneof properties) :
    file ∈ Catalog.standardNames ∨ c.FileOf (PropertyNode.lookups properties) file := by
  obtain ⟨⟨p, part⟩, hpart, hfile⟩ := List.mem_flatMap.mp h
  obtain ⟨p', hp, hproperty⟩ := List.mem_filterMap.mp hpart
  split at hproperty
  · rename_i part' hok
    cases hproperty
    unfold property at hok
    split at hok
    · cases hok
    · obtain ⟨l, hlayout, hok⟩ := bind_eq_ok hok
      obtain ⟨⟨options, files⟩, hoptions, hok⟩ := bind_eq_ok hok
      cases hok
      rcases List.mem_append.mp hfile with hfile | hfile
      · obtain ⟨target, htarget, hfound⟩ := (mem_imports_layout hlayout).mp hfile
        exact Or.inr ⟨target, List.mem_flatMap.mpr ⟨p, hp, htarget⟩, hfound⟩
      · exact Or.inl (standard_of_fieldOptions hoptions hfile)
  · cases hproperty

theorem brings_of_partImports {oneof : Option Int} {properties : List PropertyNode}
    (h : file ∈ c.partImports oneof properties) :
    c.Brings (PropertyNode.references properties) file := by
  refine (fileOf_of_partImports h).imp id ?_
  rintro ⟨target, htarget, hfound⟩
  obtain ⟨p, hp, htarget⟩ := List.mem_flatMap.mp htarget
  refine ⟨target, ?_, hfound⟩
  rcases FieldNode.target?_of_mem_lookups htarget with hnamed | hbuiltin
  · refine List.mem_append_left _ (List.mem_map.mpr ⟨(target, p.span), ?_, rfl⟩)
    exact List.mem_filterMap.mpr ⟨p, hp, by rw [hnamed]; rfl⟩
  · exact List.mem_append_right _ hbuiltin

/-! ## Schemas, services and topics -/

theorem brings_extension {e : Extension} (he : e ∈ Extension.all)
    (references : List (RefName × Span)) : c.Brings references e.file :=
  Or.inl (Extension.file_mem_standardNames e he)

mutual

theorem brings_of_objectImports {file : String} : (node : ObjectNode) →
    file ∈ c.objectImports node → c.Brings node.references file
  | { head, properties, nested, entity, polymorphMember }, h => by
      rw [objectImports, List.mem_append, List.mem_cons] at h
      rw [ObjectNode.references]
      rcases h with (rfl | h) | h
      · exact brings_extension (by decide) _
      · exact (brings_of_partImports h).mono (List.subset_append_left _ _)
      · exact (brings_of_schemaImports nested h).mono (List.subset_append_right _ _)

theorem brings_of_oneofImports {file : String} : (node : OneofNode) →
    file ∈ c.oneofImports node → c.Brings node.references file
  | { head, properties, nested, entity }, h => by
      rw [oneofImports, List.mem_append, List.mem_cons] at h
      rw [OneofNode.references]
      rcases h with (rfl | h) | h
      · exact brings_extension (by decide) _
      · exact (brings_of_partImports h).mono (List.subset_append_left _ _)
      · exact (brings_of_schemaImports nested h).mono (List.subset_append_right _ _)

theorem brings_of_schemaImports {file : String} : (nodes : List SchemaNode) →
    file ∈ c.schemaImportsList nodes → c.Brings (SchemaNode.referencesList nodes) file
  | [], h => by
      rw [schemaImportsList] at h
      cases h
  | .object node :: rest, h => by
      rw [schemaImportsList, schemaImports, List.mem_append] at h
      rw [SchemaNode.referencesList, SchemaNode.references]
      rcases h with h | h
      · exact (brings_of_objectImports node h).mono (List.subset_append_left _ _)
      · exact (brings_of_schemaImports rest h).mono (List.subset_append_right _ _)
  | .oneof node :: rest, h => by
      rw [schemaImportsList, schemaImports, List.mem_append] at h
      rw [SchemaNode.referencesList, SchemaNode.references]
      rcases h with h | h
      · exact (brings_of_oneofImports node h).mono (List.subset_append_left _ _)
      · exact (brings_of_schemaImports rest h).mono (List.subset_append_right _ _)
  | .enum node :: rest, h => by
      rw [schemaImportsList, schemaImports, List.mem_append] at h
      rcases h with h | h
      · split at h
        · rw [List.mem_singleton.mp h]
          exact brings_extension (by decide) _
        · cases h
      · exact brings_of_schemaImports rest h
  | .polymorph node :: rest, h => by
      rw [schemaImportsList, schemaImports, List.mem_append, List.mem_cons, List.mem_singleton] at h
      rcases h with (rfl | rfl) | h
      · exact Or.inl
          (WellKnown.file_mem_standardNames (WellKnown.any, WellKnown.anyFile) (by decide))
      · exact brings_extension (by decide) _
      · exact brings_of_schemaImports rest h

end

theorem brings_of_objects {objects : List ObjectNode} (h : file ∈ objects.flatMap c.objectImports) :
    c.Brings (objects.flatMap ObjectNode.references) file := by
  obtain ⟨object, hobject, h⟩ := List.mem_flatMap.mp h
  exact (brings_of_objectImports object h).mono fun _ => List.mem_flatMap_of_mem hobject

theorem brings_of_serviceImports {node : ServiceNode} (h : file ∈ c.serviceImports node) :
    c.Brings (node.objects.flatMap ObjectNode.references) file := by
  rw [serviceImports, List.mem_append, List.mem_append] at h
  rcases h with (h | h) | h
  · split at h
    · rw [List.mem_singleton.mp h]
      exact brings_extension (by decide) _
    · cases h
  · obtain ⟨m, -, h⟩ := List.mem_flatMap.mp h
    obtain ⟨⟨e, body⟩, he, rfl⟩ := List.mem_map.mp h
    exact brings_extension (level_of_methodOptions _ he).1 _
  · exact brings_of_objects h

theorem brings_of_topicImports {node : TopicNode} (h : file ∈ c.topicImports node) :
    c.Brings (node.objects.flatMap ObjectNode.references) file := by
  rw [topicImports, List.mem_cons, List.mem_cons] at h
  rcases h with rfl | rfl | h
  · exact brings_extension (by decide) _
  · exact Or.inl
      (WellKnown.file_mem_standardNames (WellKnown.empty, WellKnown.emptyFile) (by decide))
  · exact brings_of_objects h

end Conversion

/-! ## Documents -/

theorem SchemaNode.mem_referencesList {nodes : List SchemaNode} {x : RefName × Span} :
    x ∈ referencesList nodes ↔ ∃ node ∈ nodes, x ∈ node.references := by
  induction nodes with
  | nil => simp [referencesList]
  | cons node rest ih => simp [referencesList, ih]

/-- A short name stands for an imported package. -/
theorem ImportScope.package_of_get? {imports : List Import} {name package : String}
    (h : (ofImports imports).aliases.get? name = some package) :
    package ∈ imports.filterMap Import.package := by
  have hfold : ∀ (l : List Import) (scope : ImportScope),
      (l.foldl add scope).aliases.get? name = some package →
      package ∈ l.filterMap Import.package ∨ scope.aliases.get? name = some package := by
    intro l
    induction l with
    | nil => exact fun _ h => Or.inr h
    | cons i rest ih =>
        intro scope h
        have hmem : i.package = some package → package ∈ (i :: rest).filterMap Import.package :=
          fun hi => List.mem_filterMap.mpr ⟨i, List.mem_cons_self, hi⟩
        rcases ih _ h with h | h
        · obtain ⟨j, hj, hpackage⟩ := List.mem_filterMap.mp h
          exact Or.inl (List.mem_filterMap.mpr ⟨j, List.mem_cons_of_mem i hj, hpackage⟩)
        · unfold add at h
          split at h
          · exact Or.inr h
          · rename_i hi _
            rw [Dict.get?_insert] at h
            split at h
            · cases h
              exact Or.inl (hmem hi)
            · exact Or.inr h
          · rename_i hi _
            split at h
            · exact Or.inr h
            · split at h
              · exact Or.inr h
              · rw [Dict.get?_insert] at h
                split at h
                · cases h
                  exact Or.inl (hmem hi)
                · exact Or.inr h
  rcases hfold imports {} h with h | h
  · exact h
  · cases h

mutual

theorem ObjectNode.file_of_declared {package file : String} {t : TypeRef} : (node : ObjectNode) →
    t ∈ node.declared package file → t.file = file
  | { head, nested, .. }, h => by
      rw [ObjectNode.declared] at h
      rcases List.mem_cons.mp h with rfl | h
      · rfl
      · exact SchemaNode.file_of_declaredList nested h

theorem OneofNode.file_of_declared {package file : String} {t : TypeRef} : (node : OneofNode) →
    t ∈ node.declared package file → t.file = file
  | { head, nested, .. }, h => by
      rw [OneofNode.declared] at h
      rcases List.mem_cons.mp h with rfl | h
      · rfl
      · exact SchemaNode.file_of_declaredList nested h

/-- A type that schemas declare is declared in the file that they stand in. -/
theorem SchemaNode.file_of_declaredList {package file : String} {t : TypeRef} :
    (nodes : List SchemaNode) → t ∈ SchemaNode.declaredList package file nodes → t.file = file
  | [], h => by
      rw [SchemaNode.declaredList] at h
      cases h
  | node :: rest, h => by
      rw [SchemaNode.declaredList] at h
      rcases List.mem_append.mp h with h | h
      · cases node with
        | object node => exact ObjectNode.file_of_declared node h
        | oneof node => exact OneofNode.file_of_declared node h
        | enum node =>
            rw [List.mem_singleton.mp h]
        | polymorph node =>
            rw [List.mem_singleton.mp h]
      · exact SchemaNode.file_of_declaredList rest h

end

namespace Document

variable {d : Document} {r : Resolver} {file : String}

theorem file_of_mem_types {t : TypeRef} (h : t ∈ d.types) : t.file ∈ d.produces d.nodes := by
  have hobjects : ∀ (package file : String) (objects : List ObjectNode),
      t ∈ objects.flatMap (ObjectNode.declared package file) → t.file = file := by
    intro package file objects h
    obtain ⟨object, -, h⟩ := List.mem_flatMap.mp h
    exact ObjectNode.file_of_declared object h
  rw [produces, List.mem_append, List.mem_cons]
  rcases List.mem_append.mp h with h | h
  · obtain ⟨node, hnode, h⟩ := List.mem_flatMap.mp h
    cases node with
    | schema node => cases h
    | service node =>
        have hsome : (RootNode.services d.nodes).isEmpty = false :=
          List.isEmpty_eq_false_iff.mpr (List.ne_nil_of_mem (RootNode.mem_services.mpr hnode))
        rw [hobjects _ _ _ h, hsome]
        exact Or.inl (Or.inr List.mem_cons_self)
    | topic node =>
        have hsome : (RootNode.topics d.nodes).isEmpty = false :=
          List.isEmpty_eq_false_iff.mpr (List.ne_nil_of_mem (RootNode.mem_topics.mpr hnode))
        rw [hobjects _ _ _ h, hsome]
        exact Or.inr List.mem_cons_self
  · exact Or.inl (Or.inl (SchemaNode.file_of_declaredList _ h))

/-- A type is one of the document itself, a well-known one, or one that the resolver gives. -/
theorem type_of_lookup {target : RefName} {t : TypeRef}
    (h : (d.conversion r).lookup target = .ok t) :
    t ∈ d.types ∨ t.file ∈ Catalog.standardNames ∨
      r (d.packageOf target) target.schema = .ok t := by
  rw [Conversion.lookup_eq] at h
  cases hknown : (d.conversion r).known? target with
  | some found =>
      rw [hknown] at h
      cases h
      rcases Option.or_eq_some_iff.mp hknown with hown | ⟨-, hwell⟩
      · split at hown
        · exact Or.inl (mem_types_of_declared hown).1
        · cases hown
      · obtain ⟨path, hpath, rfl⟩ := Option.map_eq_some_iff.mp hwell
        obtain ⟨before, after, heq, -⟩ := List.lookup_eq_some_iff.mp hpath
        have hentry : (⟨some ((d.conversion r).packageOf target), target.schema⟩, path) ∈
            WellKnown.files := by
          rw [heq]
          exact List.mem_append_right _ List.mem_cons_self
        exact Or.inr (Or.inl (WellKnown.file_mem_standardNames _ hentry))
  | none =>
      rw [hknown] at h
      refine Or.inr (Or.inr ?_)
      have hresolver : (d.conversion r).resolver ((d.conversion r).packageOf target) target.schema =
          r (d.packageOf target) target.schema := rfl
      rw [hresolver] at h
      cases hr : r (d.packageOf target) target.schema with
      | ok found =>
          rw [hr] at h
          cases h
          rfl
      | error e =>
          rw [hr] at h
          cases h

theorem origin_of_lookup {target : RefName} {t : TypeRef}
    (h : (d.conversion r).lookup target = .ok t) :
    t.file ∈ d.produces d.nodes ∨ t.file ∈ Catalog.standardNames ∨
      r (d.packageOf target) target.schema = .ok t :=
  (type_of_lookup h).imp file_of_mem_types id

/-- The package is that of the document, a well-known one, or one that the summary lists. -/
def KnowsPackage (d : Document) (package : String) : Prop :=
  package = d.package ∨ WellKnown.isPackage package = true ∨
    package ∈ (d.summaryOf d.nodes).packageDependencies

theorem mem_packageDependencies {package : String} (hne : package ≠ d.package)
    (h : package ∈ (d.summaryOf d.nodes).typeDependencies.map TypeDependency.package ∨
      package ∈ d.imports.filterMap Import.package) :
    package ∈ (d.summaryOf d.nodes).packageDependencies := by
  rw [Summary.packageDependencies, Sorted.mem_names, List.mem_filter, List.mem_append]
  exact ⟨h.imp id fun h => Sorted.mem_names.mpr h, decide_eq_true hne⟩

theorem knowsPackage_of_mem {target : RefName}
    (h : target ∈ (d.nodes.flatMap RootNode.references).map Prod.fst ++ Conversion.builtins) :
    d.KnowsPackage (d.packageOf target) := by
  by_cases hown : d.packageOf target = d.package
  · exact Or.inl hown
  refine Or.inr ?_
  rcases List.mem_append.mp h with h | h
  · obtain ⟨⟨_, span⟩, hmem, rfl⟩ := List.mem_map.mp h
    rcases covered_of_mem_references hmem with hpackage | hpackage | ⟨dep, hdep, hpackage, -⟩
    · exact absurd hpackage hown
    · exact Or.inl hpackage
    · refine Or.inr (mem_packageDependencies hown (Or.inl ?_))
      exact List.mem_map.mpr ⟨dep, hdep, hpackage⟩
  · -- What a kind of field stands for is well known, unless an import has that name as its alias.
    have hall : ∀ target ∈ Conversion.builtins, target.package = some (target.package.getD "") ∧
        WellKnown.isPackage (target.package.getD "") = true := by decide +kernel
    obtain ⟨hsome, hwell⟩ := hall target h
    have hpackage : d.packageOf target = d.scope.expand (target.package.getD "") := by
      rw [packageOf, hsome]
      rfl
    rw [ImportScope.expand] at hpackage
    cases halias : d.scope.aliases.get? (target.package.getD "") with
    | none =>
        rw [halias, Option.getD_none] at hpackage
        rw [hpackage]
        exact Or.inl hwell
    | some package =>
        rw [halias, Option.getD_some] at hpackage
        refine Or.inr (mem_packageDependencies hown (Or.inr ?_))
        rw [hpackage]
        exact ImportScope.package_of_get? halias

/-! ## Imports -/

theorem brings_of_draft {c : Conversion} {draft : FileDraft} (h : draft ∈ d.drafts c d.nodes)
    (hfile : file ∈ draft.imports) :
    c.Brings (d.nodes.flatMap RootNode.references) file ∨
      file ∈ d.imports.filterMap Import.path := by
  rcases List.mem_cons.mp h with rfl | h
  · rcases List.mem_append.mp hfile with hfile | hfile
    · refine Or.inl ((Conversion.brings_of_schemaImports _ hfile).mono fun x hx => ?_)
      obtain ⟨node, hnode, hx⟩ := SchemaNode.mem_referencesList.mp hx
      exact List.mem_flatMap.mpr ⟨_, RootNode.mem_schemas.mp hnode, hx⟩
    · exact Or.inr (List.mem_filter.mp hfile).1
  · left
    rcases List.mem_append.mp h with h | h
    · rw [Option.mem_toList, serviceDraft?] at h
      split at h
      · cases h
      · cases h
        obtain ⟨node, hnode, hfile⟩ := List.mem_flatMap.mp hfile
        exact (Conversion.brings_of_serviceImports hfile).mono fun _ hx =>
          List.mem_flatMap.mpr ⟨_, RootNode.mem_services.mp hnode, hx⟩
    · rw [Option.mem_toList, topicDraft?] at h
      split at h
      · cases h
      · cases h
        obtain ⟨node, hnode, hfile⟩ := List.mem_flatMap.mp hfile
        exact (Conversion.brings_of_topicImports hfile).mono fun _ hx =>
          List.mem_flatMap.mpr ⟨_, RootNode.mem_topics.mp hnode, hx⟩

/-- Every import of a converted file is a standard file, one that the summary lists, one of the same
document, or the file of a type in a package that the document knows of. -/
theorem origin_of_import {files : List FileDescriptor} (h : d.convert r = .ok files)
    {f : FileDescriptor} (hf : f ∈ files) (hfile : file ∈ f.dependencies) :
    file ∈ Catalog.standardNames ∨ file ∈ (d.summaryOf d.nodes).fileDependencies ∨
    file ∈ d.produces d.nodes ∨
    ∃ package name t, r package name = .ok t ∧ t.file = file ∧ d.KnowsPackage package := by
  obtain ⟨-, rfl⟩ := convert_eq_ok h
  obtain ⟨draft, hdraft, rfl⟩ := List.mem_map.mp hf
  rcases brings_of_draft hdraft (FileDraft.mem_dependencies.mp hfile).1 with hbrings | hpath
  · rcases hbrings with hstandard | ⟨target, htarget, t, ht, rfl⟩
    · exact Or.inl hstandard
    · rcases origin_of_lookup ht with hown | hstandard | hresolved
      · exact Or.inr (Or.inr (Or.inl hown))
      · exact Or.inl hstandard
      · exact Or.inr (Or.inr (Or.inr ⟨_, _, t, hresolved, rfl, knowsPackage_of_mem htarget⟩))
  · exact Or.inr (Or.inl (Sorted.mem_names.mpr hpath))

end Document
end Schematic
