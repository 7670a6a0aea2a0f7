import Schematic.Catalog
import Schematic.Proofs.Conversion.Imports
import Mathlib.Data.List.Nodup

/-!
# Converted files link

The files of a document link as they are against any table that holds them and the standard
files, and in which the types that the resolver gave are what it said.  Their imports are in order,
and each of them is needed, except for the imports of the document that nothing needs: those stay
with the main file.
-/

namespace Schematic

/-! ## Sorted names -/

namespace Sorted

theorem pairwise_names (items : List String) : (names items).Pairwise (· < ·) := by
  have hfold : ∀ (items sorted : List String), sorted.Pairwise (· < ·) →
      (items.foldl (fun sorted a => insert nameLt a sorted) sorted).Pairwise (· < ·) := by
    intro items
    induction items with
    | nil => exact fun _ h => h
    | cons a rest ih => exact fun _ h => ih _ (pairwise_insert_names h)
  exact hfold items [] List.Pairwise.nil

theorem mem_names {x : String} {items : List String} : x ∈ names items ↔ x ∈ items := by
  have hfold : ∀ (items sorted : List String),
      x ∈ items.foldl (fun sorted a => insert nameLt a sorted) sorted ↔ x ∈ items ∨ x ∈ sorted := by
    intro items
    induction items with
    | nil => intro sorted; simp
    | cons a rest ih =>
        intro sorted
        rw [List.foldl_cons, ih, mem_insert_names, List.mem_cons]
        tauto
  rw [names, ofList, hfold]
  simp

end Sorted

theorem FileDraft.mem_dependencies {d : FileDraft} {path : String} :
    path ∈ d.dependencies ↔ path ∈ d.imports ∧ path ≠ d.name := by
  rw [dependencies, Sorted.mem_names, List.mem_filter, decide_eq_true_eq]

theorem FileDraft.uses_descriptor (d : FileDraft) :
    d.descriptor.uses = MessageDraft.uses d.package d.messages ++
      (d.enums.map EnumDraft.descriptor).flatMap (EnumDescriptor.uses d.package) ++
      (d.services.map ServiceDraft.descriptor).flatMap (ServiceDescriptor.uses d.package) := by
  have huses : d.descriptor.uses =
      [] ++ MessageDescriptor.usesList d.package (MessageDraft.descriptors d.messages) ++
        (d.enums.map EnumDraft.descriptor).flatMap (EnumDescriptor.uses d.package) ++ [] ++
        (d.services.map ServiceDraft.descriptor).flatMap (ServiceDescriptor.uses d.package) := rfl
  rw [huses, MessageDraft.usesList_descriptors, List.nil_append, List.append_nil]

/-! ## The standard files -/

namespace Catalog

/-- The well-known types are messages of the standard files. -/
theorem declares_wellKnown : ∀ entry ∈ WellKnown.files, ∃ f ∈ standardFiles,
    ((entry.1.package.getD "") ++ "." ++ entry.1.schema, { kind := .message, file := entry.2 }) ∈
      Declared.names f := by
  decide +kernel

/-- The custom options are extensions of the standard files. -/
theorem declares_options : ∀ e ∈ Extension.all, ∃ f ∈ standardFiles,
    (e.name, { kind := .extension, file := e.file
               extendee := some ("google.protobuf." ++ e.level.messageName) }) ∈ Declared.names f := by
  decide +kernel

/-- No extension has the name of a custom option inside some scope. -/
theorem not_suffix_of_extension : ∀ e ∈ Extension.all, ∀ f ∈ standardFiles,
    ∀ entry ∈ Declared.names f, entry.2.kind = .extension →
      ¬ '.' :: e.name.toList <:+ entry.1.toList := by
  decide +kernel

end Catalog

/-! ## Custom options in scopes -/

/-- A name in a scope is, without dots before it, that name or one that ends in it after a dot. -/
theorem withoutLeading_qualify {name : String} (hname : Rooted name) (scope : String) :
    Text.withoutLeading '.' (qualify scope name) = name ∨
      '.' :: name.toList <:+ (Text.withoutLeading '.' (qualify scope name)).toList := by
  by_cases hscope : scope = ""
  · rw [qualify, if_pos hscope]
    exact Or.inl hname.withoutLeading
  · obtain ⟨first, rest, hchars, hfirst⟩ := hname
    have hlist : (scope ++ "." ++ name).toList = scope.toList ++ '.' :: name.toList := by
      rw [String.toList_append, String.toList_append, List.append_assoc]
      rfl
    rw [qualify, if_neg hscope, Text.withoutLeading, hlist, List.dropWhile_append]
    split
    · -- The scope is made of dots only.
      have hdrop : ('.' :: name.toList).dropWhile (· == '.') = name.toList := by
        rw [List.dropWhile_cons_of_pos (by decide), hchars,
          List.dropWhile_cons_of_neg (by simpa using hfirst)]
      rw [hdrop, String.ofList_toList]
      exact Or.inl rfl
    · rw [String.toList_ofList]
      exact Or.inr (List.suffix_append _ _)

theorem Linker.empty_mem_scopes (scope : String) : "" ∈ scopes scope := by
  refine List.mem_map.mpr ⟨0, List.mem_reverse.mpr (List.mem_range.mpr (Nat.succ_pos _)), ?_⟩
  rw [List.take_zero]
  rfl

/-- The table holds the standard files and no other extensions. -/
structure Symbols.Standard (s : Symbols) : Prop where
  holds : ∀ f ∈ Catalog.standardFiles, s.Holds f
  extensions : ∀ name symbol, s.table.get? name = some symbol → symbol.kind = .extension →
    ∃ f ∈ Catalog.standardFiles, (name, symbol) ∈ Declared.names f

namespace Symbols.Standard

variable {s : Symbols} (h : s.Standard)

include h

theorem get? {f : FileDescriptor} (hf : f ∈ Catalog.standardFiles) {entry : String × Symbol}
    (hentry : entry ∈ Declared.names f) : s.table.get? entry.1 = some entry.2 :=
  (h.holds f hf).names entry hentry

/-- From whatever scope a custom option is looked for, it is found. -/
theorem knowsOptions : s.KnowsOptions := by
  intro e he element
  have hrooted : Rooted e.name := by
    have hall : ∀ e ∈ Extension.all, e.name ≠ "" ∧ Text.startsWith "." e.name = false := by decide
    exact .of_startsWith (hall e he).1 (hall e he).2
  have hplain : Text.withoutStart? "." e.name = none := by
    have hall : ∀ e ∈ Extension.all, Text.withoutStart? "." e.name = none := by decide
    exact hall e he
  obtain ⟨f, hf, hentry⟩ := Catalog.declares_options e he
  have hown : s.table.get? e.name = some ⟨.extension, e.file,
      some ("google.protobuf." ++ e.level.messageName)⟩ := h.get? hf hentry
  -- An extension found in any scope is the option itself.
  have honly : ∀ scope symbol, s.lookup (qualify scope e.name) = some symbol →
      symbol.kind = .extension → s.table.get? e.name = some symbol := by
    intro scope symbol hlookup hkind
    rw [lookup] at hlookup
    rcases withoutLeading_qualify hrooted scope with hname | hsuffix
    · rw [hname] at hlookup
      exact hlookup
    · obtain ⟨g, hg, hmem⟩ := h.extensions _ symbol hlookup hkind
      have hnot := Catalog.not_suffix_of_extension e he g hg
        (Text.withoutLeading '.' (qualify scope e.name), symbol) hmem hkind
      exact absurd hsuffix hnot
  cases hfind : s.find (fun symbol => symbol.kind = .extension) element e.name with
  | none =>
      rw [find, Linker.find, hplain] at hfind
      have hempty := List.findSome?_eq_none_iff.mp hfind "" (Linker.empty_mem_scopes element)
      have hlookup : s.lookup (qualify "" e.name) = s.table.get? e.name := by
        rw [lookup, qualify, if_pos rfl, hrooted.withoutLeading]
      simp only [hlookup, hown, Option.filter_some, decide_true, if_true, Option.map_some] at hempty
      cases hempty
  | some found =>
      obtain ⟨full, symbol⟩ := found
      have hfound := hfind
      rw [find, Linker.find, hplain] at hfound
      obtain ⟨scope, -, hsymbol⟩ := List.exists_of_findSome?_eq_some hfound
      obtain ⟨_, hfilter, heq⟩ := Option.map_eq_some_iff.mp hsymbol
      cases heq
      obtain ⟨hlookup, hkind⟩ := Option.filter_eq_some_iff.mp hfilter
      have hsame := honly scope symbol hlookup (of_decide_eq_true hkind)
      rw [hown, Option.some.injEq] at hsame
      exact ⟨_, _, rfl, by rw [← hsame], by rw [← hsame]⟩

theorem declares_wellKnown {package name : String} {t : TypeRef}
    (ht : WellKnown.type? package name = some t) : s.Declares t := by
  obtain ⟨file, hfile, rfl⟩ := Option.map_eq_some_iff.mp ht
  obtain ⟨before, after, hfiles, -⟩ := List.lookup_eq_some_iff.mp hfile
  have hmem : ((⟨some package, name⟩ : RefName), file) ∈ WellKnown.files := by
    rw [hfiles]
    simp
  obtain ⟨f, hf, hentry⟩ := Catalog.declares_wellKnown _ hmem
  have hrooted : Rooted package := by
    have hall : ∀ entry ∈ WellKnown.files, entry.1.package.getD "" ≠ "" ∧
        Text.startsWith "." (entry.1.package.getD "") = false := by decide
    exact .of_startsWith (hall _ hmem).1 (hall _ hmem).2
  refine ⟨{ kind := .message, file }, ?_, rfl, rfl⟩
  rw [lookup, TypeRef.fullName, if_neg hrooted.ne_empty,
    ((hrooted.append ".").append name).withoutLeading]
  exact h.get? hf hentry

end Symbols.Standard

/-! ## Short names of packages -/

namespace ImportScope

theorem mem_of_shortNameList? {before : Option String} {segments : List String} {name : String}
    (h : shortNameList? before segments = some name) : before = some name ∨ name ∈ segments := by
  induction segments generalizing before with
  | nil => cases h
  | cons segment rest ih =>
      rw [shortNameList?] at h
      split at h
      · exact Or.inl h
      · rcases ih h with hname | hname
        · cases hname
          exact Or.inr List.mem_cons_self
        · exact Or.inr (List.mem_cons_of_mem segment hname)

/-- A name that stands for a package is an alias or has no dot. -/
theorem alias_of_get? {imports : List Import} {name package : String}
    (h : (ofImports imports).aliases.get? name = some package) :
    (∃ i ∈ imports, i.localName = some name) ∨ '.' ∉ name.toList := by
  have hfold : ∀ (l : List Import) (scope : ImportScope),
      (l.foldl add scope).aliases.get? name = some package →
      (∃ i ∈ l, i.localName = some name) ∨ '.' ∉ name.toList ∨
        scope.aliases.get? name = some package := by
    intro l
    induction l with
    | nil => exact fun _ h => Or.inr (Or.inr h)
    | cons i rest ih =>
        intro scope h
        rcases ih _ h with ⟨j, hj, hname⟩ | hdot | h
        · exact Or.inl ⟨j, List.mem_cons_of_mem i hj, hname⟩
        · exact Or.inr (Or.inl hdot)
        · unfold add at h
          split at h
          · exact Or.inr (Or.inr h)
          · rename_i hlocal
            rw [Dict.get?_insert] at h
            split at h
            · rename_i heq
              exact Or.inl ⟨i, List.mem_cons_self, by rw [hlocal, heq]⟩
            · exact Or.inr (Or.inr h)
          · split at h
            · exact Or.inr (Or.inr h)
            · rename_i short hshort
              split at h
              · exact Or.inr (Or.inr h)
              · rw [Dict.get?_insert] at h
                split at h
                · rename_i heq
                  rw [heq]
                  rcases mem_of_shortNameList? hshort with hnone | hmem
                  · cases hnone
                  · exact Or.inr (Or.inl (Text.not_mem_of_mem_pieces hmem))
                · exact Or.inr (Or.inr h)
  rcases hfold imports {} h with halias | hdot | hempty
  · exact Or.inl halias
  · exact Or.inr hdot
  · cases hempty

end ImportScope

/-! ## Types of a document -/

namespace Document

variable {d : Document} {r : Resolver} {s : Symbols}

/-- No alias of an import is the name of a well-known package. -/
def PlainAliases (d : Document) : Prop :=
  ∀ i ∈ d.imports, ∀ name, i.localName = some name →
    ∀ entry ∈ WellKnown.files, entry.1.package ≠ some name

theorem dot_mem_wellKnown : ∀ entry ∈ WellKnown.files, ∀ package, entry.1.package = some package →
    '.' ∈ package.toList := by
  have hall : ∀ entry ∈ WellKnown.files, '.' ∈ (entry.1.package.getD "").toList := by decide +kernel
  intro entry hentry package hpackage
  have hdot := hall entry hentry
  rwa [hpackage] at hdot

/-- A name with a dot stands for itself unless it is an alias. -/
theorem expand_of_no_alias {package : String} (hdot : '.' ∈ package.toList)
    (h : ∀ i ∈ d.imports, i.localName ≠ some package) : d.scope.expand package = package := by
  rw [ImportScope.expand]
  cases halias : d.scope.aliases.get? package with
  | none => rfl
  | some other =>
      rcases ImportScope.alias_of_get? halias with ⟨i, hi, hlocal⟩ | hnone
      · exact absurd hlocal (h i hi)
      · exact absurd hdot hnone

/-- With plain aliases a well-known package is found under its own name. -/
theorem expand_wellKnown (haliases : d.PlainAliases) {entry : RefName × String}
    (hentry : entry ∈ WellKnown.files) {package : String} (hpackage : entry.1.package = some package) :
    d.scope.expand package = package :=
  expand_of_no_alias (dot_mem_wellKnown entry hentry package hpackage) fun i hi hlocal =>
    haliases i hi package hlocal entry hentry hpackage

/-- What a kind of field stands for is well known, and found as such. -/
theorem wellKnown_of_builtin (haliases : d.PlainAliases) {target : RefName}
    (htarget : target ∈ Conversion.builtins) :
    ∃ entry ∈ WellKnown.files, entry.1 = target ∧ target.package = some (d.packageOf target) ∧
      '.' ∉ target.schema.toList ∧ WellKnown.type? (d.packageOf target) target.schema =
        some ⟨d.packageOf target, target.schema, entry.2, .object none⟩ := by
  have hentries : ∀ target ∈ Conversion.builtins, ∃ entry ∈ WellKnown.files, entry.1 = target := by
    decide
  have hshape : ∀ entry ∈ WellKnown.files, entry.1.package = some (entry.1.package.getD "") ∧
      '.' ∉ entry.1.schema.toList ∧ WellKnown.type? (entry.1.package.getD "") entry.1.schema =
        some ⟨entry.1.package.getD "", entry.1.schema, entry.2, .object none⟩ := by decide +kernel
  obtain ⟨entry, hentry, rfl⟩ := hentries target htarget
  obtain ⟨hsome, hplain, htype⟩ := hshape entry hentry
  have hexpand : d.packageOf entry.1 = entry.1.package.getD "" := by
    rw [packageOf, hsome]
    exact expand_wellKnown haliases hentry hsome
  rw [hexpand]
  exact ⟨entry, hentry, rfl, hsome, hplain, htype⟩

/-- The resolver gives the type for a name that the document asks it for. -/
def Answered (d : Document) (r : Resolver) (t : TypeRef) : Prop :=
  ∃ target ∈ d.lookups, (d.conversion r).known? target = none ∧
    r ((d.conversion r).packageOf target) target.schema = .ok t

/-- The table holds the standard files and the files given, with all files that these import, and
declares what the resolver gave. -/
structure LinksIn (d : Document) (r : Resolver) (files : List FileDescriptor) (s : Symbols) : Prop where
  standard : s.Standard
  holds : ∀ f ∈ files, s.Holds f
  imported : ∀ f ∈ files, ∀ path ∈ f.dependencies, s.containsFile path = true
  answers : ∀ t, d.Answered r t → s.Declares t

theorem package_of_mem_types {t : TypeRef} (ht : t ∈ d.types) :
    t.package ∈ [d.package, d.servicePackage, d.topicPackage] := by
  rcases List.mem_append.mp ht with ht | ht
  · rcases package_of_mem_payloadTypes ht with h | h <;> rw [h] <;> simp
  · rw [package_of_mem_mainTypes ht]
    exact List.mem_cons_self

theorem rooted_of_mem_types (hpackage : Rooted d.package) {t : TypeRef} (ht : t ∈ d.types) :
    Rooted t.package := by
  have hmem := package_of_mem_types ht
  simp only [List.mem_cons, List.not_mem_nil, or_false] at hmem
  rcases hmem with h | h | h <;> rw [h]
  · exact hpackage
  · exact (hpackage.append ".").append _
  · exact (hpackage.append ".").append _

section Tables

variable {files : List FileDescriptor} (hpackage : Rooted d.package)
  (hconvert : d.convert r = .ok files) (hlinks : d.LinksIn r files s)

include hconvert in
theorem files_eq : files = (d.drafts (d.conversion r) d.nodes).map FileDraft.descriptor := by
  rw [convert] at hconvert
  split at hconvert
  · cases hconvert
    rfl
  · cases hconvert

include hpackage hconvert hlinks

/-- The types of the document are in the table. -/
theorem get?_of_mem_types {t : TypeRef} (ht : t ∈ d.types) :
    s.table.get? t.fullName = some t.symbol := by
  obtain ⟨draft, hdraft, hentry⟩ := exists_draft_of_mem_types hpackage (d.conversion r) ht
  have hfile : draft.descriptor ∈ files := by
    rw [files_eq hconvert]
    exact List.mem_map_of_mem hdraft
  exact (hlinks.holds _ hfile).names _ hentry

theorem declares_of_mem_types {t : TypeRef} (ht : t ∈ d.types) : s.Declares t := by
  have hrooted := rooted_of_mem_types hpackage ht
  refine ⟨t.symbol, ?_, rfl, rfl⟩
  have hget := get?_of_mem_types hpackage hconvert hlinks ht
  rw [TypeRef.fullName, if_neg hrooted.ne_empty] at hget ⊢
  rw [Symbols.lookup, ((hrooted.append ".").append _).withoutLeading, hget]

/-- Whatever a name of the document stands for is declared. -/
theorem backed_lookups : (d.conversion r).Backed s d.lookups := by
  intro target htarget t ht
  rw [Conversion.lookup_eq] at ht
  cases hknown : (d.conversion r).known? target with
  | some found =>
      rw [hknown] at ht
      cases ht
      rw [Conversion.known?, Option.or_eq_some_iff] at hknown
      rcases hknown with hown | ⟨-, hwell⟩
      · split at hown
        · exact declares_of_mem_types hpackage hconvert hlinks (mem_types_of_declared hown).1
        · cases hown
      · exact hlinks.standard.declares_wellKnown hwell
  | none =>
      rw [hknown] at ht
      cases hanswer : r ((d.conversion r).packageOf target) target.schema with
      | error e =>
          have herror : (d.conversion r).resolver ((d.conversion r).packageOf target) target.schema =
              .error e := hanswer
          rw [herror] at ht
          cases ht
      | ok found =>
          have hok : (d.conversion r).resolver ((d.conversion r).packageOf target) target.schema =
              .ok found := hanswer
          rw [hok] at ht
          cases ht
          exact hlinks.answers t ⟨target, htarget, hknown, hanswer⟩

/-- A type of the document that has the name of a well-known one is a message. -/
theorem symbolKind_of_builtin (haliases : d.PlainAliases) {target : RefName}
    (htarget : target ∈ Conversion.builtins) {t : TypeRef}
    (ht : (d.conversion r).lookup target = .ok t) : t.kind.symbolKind = .message := by
  obtain ⟨entry, hentry, rfl, hsome, hplain, hwell⟩ := wellKnown_of_builtin haliases htarget
  have hexpand : (d.conversion r).packageOf entry.1 = d.packageOf entry.1 := rfl
  rw [Conversion.lookup_eq, Conversion.known?, hexpand, hwell] at ht
  split at ht
  · rename_i found hfound
    cases ht
    rw [Option.or_eq_some_iff] at hfound
    rcases hfound with hown | ⟨-, hwell⟩
    · split at hown
      · rename_i hsame
        obtain ⟨hmem, hname⟩ := mem_types_of_declared hown
        rcases List.mem_append.mp hmem with hpayload | hschema
        · -- A payload stands at the top of its package.
          obtain ⟨node, hnode, hpayload⟩ := List.mem_flatMap.mp hpayload
          have hstands := d.nodes_stand node hnode
          rw [← hname] at hplain
          cases node with
          | schema node => cases hpayload
          | service node =>
              obtain ⟨object, hobject, ht⟩ := List.mem_flatMap.mp hpayload
              exact ObjectNode.symbolKind_of_declared (hstands object hobject) ht hplain
          | topic node =>
              obtain ⟨object, hobject, ht⟩ := List.mem_flatMap.mp hpayload
              exact ObjectNode.symbolKind_of_declared (hstands.2 object hobject) ht hplain
        · -- A schema has the full name of the well-known type, and the table has only one of them.
          have hpackage' := (SchemaNode.name_of_declared _ d.schemas_standIn t hschema).1
          have hget := get?_of_mem_types hpackage hconvert hlinks hmem
          have hsame : d.packageOf entry.1 = d.package := hsame
          obtain ⟨f, hf, hcatalog⟩ := Catalog.declares_wellKnown entry hentry
          have hmessage := hlinks.standard.get? hf hcatalog
          rw [hsome, Option.getD_some, hsame] at hmessage
          rw [TypeRef.fullName, hpackage', if_neg hpackage.ne_empty, hname, hmessage,
            Option.some.injEq] at hget
          exact (congrArg Symbol.kind hget).symm
      · cases hown
    · cases hwell
      rfl
  · rename_i hnone
    rw [Option.or_eq_none_iff] at hnone
    cases hnone.2

theorem grounded (haliases : d.PlainAliases) : (d.conversion r).Grounded s where
  options := hlinks.standard.knowsOptions
  wellKnown _ _ _ ht := hlinks.standard.declares_wellKnown ht
  builtin _ htarget _ ht := symbolKind_of_builtin hpackage hconvert hlinks haliases htarget ht

end Tables

/-! ## Files of a document -/

/-- The drafts of a document, before the imports that none of them needs go to the first. -/
def neededDrafts (d : Document) (c : Conversion) : List FileDraft :=
  d.mainDraft c (RootNode.schemas d.nodes) ::
    ((d.serviceDraft? c (RootNode.services d.nodes)).toList ++
      (d.topicDraft? c (RootNode.topics d.nodes)).toList)

theorem name_of_mem_others {c : Conversion} {draft : FileDraft}
    (h : draft ∈ (d.serviceDraft? c (RootNode.services d.nodes)).toList ++
      (d.topicDraft? c (RootNode.topics d.nodes)).toList) :
    draft.name = d.serviceFile ∨ draft.name = d.topicFile := by
  rcases List.mem_append.mp h with h | h
  · rw [Option.mem_toList, serviceDraft?] at h
    split at h
    · cases h
    · cases h
      exact Or.inl rfl
  · rw [Option.mem_toList, topicDraft?] at h
    split at h
    · cases h
    · cases h
      exact Or.inr rfl

/-- The main file has the idle imports besides its own, and all else is as in the drafts without
them. -/
theorem drafts_eq (d : Document) (c : Conversion) :
    ∃ main others, d.neededDrafts c = main :: others ∧
      d.drafts c d.nodes =
        { main with imports := main.imports ++ d.idleImports (main :: others) } :: others ∧
      main.name = FileName.mainFile d.path ∧
      ∀ draft ∈ others, draft.name = d.serviceFile ∨ draft.name = d.topicFile :=
  ⟨_, _, rfl, rfl, rfl, fun _ h => name_of_mem_others h⟩

section Drafts

variable {c : Conversion} (hg : c.Grounded s) (hbacked : c.Backed s d.lookups)
  (hpackage : Rooted d.package)

include hg hbacked hpackage

theorem covers_main
    (hhas : s.Has (Declared.names (d.mainDraft c (RootNode.schemas d.nodes)).descriptor)) :
    s.Covers (FileName.mainFile d.path) (d.mainDraft c (RootNode.schemas d.nodes)).descriptor.uses
      (d.mainDraft c (RootNode.schemas d.nodes)).imports := by
  have hschemas : c.Backed s (SchemaNode.lookupsList (RootNode.schemas d.nodes)) := by
    refine hbacked.mono fun target htarget => ?_
    obtain ⟨node, hnode, htarget⟩ := SchemaNode.mem_lookupsList.mp htarget
    exact List.mem_flatMap.mpr ⟨_, RootNode.mem_schemas.mp hnode, htarget⟩
  have hnames := hhas.mono (FileDraft.names_subset _)
  rw [Symbols.has_append] at hnames
  rw [FileDraft.uses_descriptor]
  have hcovers := Conversion.covers_schemas hg hpackage _ hschemas hnames.1
  exact hcovers.of_mem fun u => by rw [mainDraft, List.map_nil, List.flatMap_nil, List.append_nil]

omit hg hbacked hpackage in
/-- A file of services or topics, each with its payloads, needs what these need. -/
theorem covers_blocks {α : Type} {nodes : List α} {objects : α → List ObjectNode}
    {block : α → ServiceDraft} {imports : α → List String} {name package : String}
    (hhas : s.Has (MessageDraft.names name package
      ((nodes.flatMap objects).map (c.objectDraft package))))
    (hnode : ∀ node ∈ nodes,
      s.Has (MessageDraft.names name package ((objects node).map (c.objectDraft package))) →
      s.Covers name ((block node).descriptor.uses package ++
        MessageDraft.uses package ((objects node).map (c.objectDraft package))) (imports node)) :
    s.Covers name
      (MessageDraft.uses package ((nodes.flatMap objects).map (c.objectDraft package)) ++
        ((nodes.map block).map ServiceDraft.descriptor).flatMap (ServiceDescriptor.uses package))
      (nodes.flatMap imports) := by
  have heach : ∀ node ∈ nodes, s.Covers name ((block node).descriptor.uses package ++
      MessageDraft.uses package ((objects node).map (c.objectDraft package))) (imports node) := by
    intro node hmem
    refine hnode node hmem (hhas.mono fun entry hentry => ?_)
    obtain ⟨message, hmessage, hentry⟩ := List.mem_flatMap.mp hentry
    obtain ⟨object, hobject, rfl⟩ := List.mem_map.mp hmessage
    exact List.mem_flatMap.mpr ⟨_, List.mem_map_of_mem (List.mem_flatMap_of_mem hmem hobject), hentry⟩
  refine (Symbols.Covers.flatMap heach).of_mem fun u => ?_
  simp only [MessageDraft.uses, List.mem_append, List.mem_flatMap, List.mem_map]
  grind

theorem covers_services {draft : FileDraft}
    (hdraft : d.serviceDraft? c (RootNode.services d.nodes) = some draft)
    (hhas : s.Has (Declared.names draft.descriptor)) :
    s.Covers draft.name draft.descriptor.uses draft.imports := by
  rw [serviceDraft?] at hdraft
  split at hdraft
  · cases hdraft
  · cases hdraft
    have hnames := (Symbols.has_append.mp (hhas.mono (FileDraft.names_subset _))).1
    rw [FileDraft.uses_descriptor, List.map_nil, List.flatMap_nil, List.append_nil]
    refine covers_blocks hnames fun node hnode hobjects => ?_
    refine Conversion.covers_service hg ((hpackage.append ".").append _) node
      (hbacked.mono fun target htarget => ?_) hobjects
    exact List.mem_flatMap.mpr ⟨_, RootNode.mem_services.mp hnode, htarget⟩

theorem covers_topics {draft : FileDraft}
    (hdraft : d.topicDraft? c (RootNode.topics d.nodes) = some draft)
    (hhas : s.Has (Declared.names draft.descriptor)) :
    s.Covers draft.name draft.descriptor.uses draft.imports := by
  rw [topicDraft?] at hdraft
  split at hdraft
  · cases hdraft
  · cases hdraft
    have hnames := (Symbols.has_append.mp (hhas.mono (FileDraft.names_subset _))).1
    rw [FileDraft.uses_descriptor, List.map_nil, List.flatMap_nil, List.append_nil]
    refine covers_blocks hnames fun node hnode hobjects => ?_
    have hroot := RootNode.mem_topics.mp hnode
    refine Conversion.covers_topic hg ((hpackage.append ".").append _) node
      (d.nodes_stand _ hroot).1 (hbacked.mono fun target htarget => ?_) hobjects
    exact List.mem_flatMap.mpr ⟨_, hroot, htarget⟩

/-- Every draft needs the files that come with it. -/
theorem covers_drafts (hhas : ∀ draft ∈ d.neededDrafts c, s.Has (Declared.names draft.descriptor)) :
    ∀ draft ∈ d.neededDrafts c, s.Covers draft.name draft.descriptor.uses draft.imports := by
  intro draft hdraft
  have hnames := hhas draft hdraft
  rcases List.mem_cons.mp hdraft with rfl | hother
  · exact covers_main hg hbacked hpackage hnames
  · rcases List.mem_append.mp hother with h | h
    · exact covers_services hg hbacked hpackage (Option.mem_toList.mp h) hnames
    · exact covers_topics hg hbacked hpackage (Option.mem_toList.mp h) hnames

end Drafts

/-! ## Linking -/

/-- A draft whose imports are right up to some further ones links as it is.  The further ones that
it does not need are left over. -/
theorem link_of_covers {draft : FileDraft} {imports others : List String}
    (himports : draft.imports = imports ++ others)
    (hcovers : s.Covers draft.name draft.descriptor.uses imports)
    (hfiles : ∀ path ∈ draft.descriptor.dependencies, s.containsFile path = true) :
    ∃ unused, s.link draft.descriptor = .ok ⟨draft.descriptor, unused⟩ ∧ unused.Nodup ∧
      ∀ path, path ∈ unused ↔
        path ∈ others ∧ path ≠ draft.name ∧ ¬ s.Needs draft.descriptor path := by
  have hdeps : ∀ path, path ∈ draft.descriptor.dependencies ↔
      (path ∈ imports ∨ path ∈ others) ∧ path ≠ draft.name := by
    intro path
    rw [← List.mem_append, ← himports]
    exact FileDraft.mem_dependencies
  obtain ⟨unused, hlink, hsub, hunused⟩ := Symbols.link_of_sound hfiles fun u hu => by
    obtain ⟨hsound, hfile⟩ := hcovers.sound u hu
    refine ⟨hsound, fun file hf => ?_⟩
    by_cases hown : file = draft.name
    · exact Or.inl hown
    · exact Or.inr ((hdeps file).mpr ⟨Or.inl ((hfile file hf).resolve_left hown), hown⟩)
  have hnodup : draft.descriptor.dependencies.Nodup := by
    refine List.Pairwise.imp (fun {a b} hlt heq => ?_) (Sorted.pairwise_names _)
    rw [heq] at hlt
    exact String.lt_irrefl b hlt
  refine ⟨unused, hlink, hnodup.sublist hsub, fun path => ?_⟩
  have hname : draft.descriptor.nameText = draft.name := rfl
  rw [hunused, hdeps, hname]
  constructor
  · rintro ⟨⟨hmem, hne⟩, hidle⟩
    have hnot := hidle.resolve_left hne
    exact ⟨hmem.resolve_left fun h => hnot (hcovers.needed path h), hne, hnot⟩
  · rintro ⟨hmem, hne, hnot⟩
    exact ⟨⟨Or.inr hmem, hne⟩, Or.inr hnot⟩

/-- An import that no draft has is one that is no file of the document and that none of them needs. -/
theorem mem_idleImports {drafts : List FileDraft}
    (hcovers : ∀ draft ∈ drafts, s.Covers draft.name draft.descriptor.uses draft.imports)
    {path : String} :
    path ∈ d.idleImports drafts ↔ path ∈ d.imports.filterMap Import.path ∧
      (∀ draft ∈ drafts, path ≠ draft.name) ∧ ∀ draft ∈ drafts, ¬ s.Needs draft.descriptor path := by
  rw [idleImports, List.mem_filter, Bool.not_eq_true', List.any_eq_false]
  refine and_congr_right fun _ => ?_
  simp only [FileDraft.hasImport, Bool.or_eq_true, beq_iff_eq, List.contains_iff_mem, not_or]
  constructor
  · refine fun h => ⟨fun draft hdraft => (h draft hdraft).1, fun draft hdraft => ?_⟩
    rintro ⟨u, hu, hfile⟩
    obtain ⟨hne, hmem⟩ := h draft hdraft
    exact hmem ((((hcovers draft hdraft).sound u hu).2 path hfile).resolve_left hne)
  · rintro ⟨hne, hneeds⟩ draft hdraft
    exact ⟨hne draft hdraft, fun h => hneeds draft hdraft ((hcovers draft hdraft).needed path h)⟩

/-- Importing the standard files and then others, each under a name of its own, gives a table in which
the files of a document among them link. -/
theorem linksIn_of_imports {files fs : List FileDescriptor}
    (himports : (Catalog.standardFiles ++ fs).foldlM Symbols.importFile {} = .ok s)
    (hnames : ((Catalog.standardFiles ++ fs).map FileDescriptor.nameText).Nodup)
    (hextensions : ∀ f ∈ fs, ∀ entry ∈ Declared.names f, entry.2.kind ≠ .extension)
    (hfiles : files ⊆ fs) (hdeps : ∀ f ∈ files, ∀ path ∈ f.dependencies,
      path ∈ (Catalog.standardFiles ++ fs).map FileDescriptor.nameText)
    (hanswers : ∀ t, d.Answered r t → s.Declares t) : d.LinksIn r files s := by
  obtain ⟨-, hcontains, horigin⟩ := Symbols.imports_eq_ok himports
  have hholds : ∀ f ∈ Catalog.standardFiles ++ fs, s.Holds f := fun f hf =>
    Symbols.holds_of_imports himports hf rfl fun g hg heq => List.inj_on_of_nodup_map hnames hg hf heq
  refine ⟨⟨fun f hf => hholds f (List.mem_append_left _ hf), fun name symbol hget hkind => ?_⟩,
    fun f hf => hholds f (List.mem_append_right _ (hfiles hf)),
    fun f hf path hpath => (hcontains path).mpr (Or.inl (hdeps f hf path hpath)), hanswers⟩
  rcases horigin name symbol hget with hold | hpackage | ⟨f, hf, hentry⟩
  · cases hold
  · rw [hpackage] at hkind
    cases hkind
  · rcases List.mem_append.mp hf with hf | hf
    · exact ⟨f, hf, hentry⟩
    · exact absurd hkind (hextensions f hf _ hentry)

/-- The files of a document link as they are, with imports in order and no import too many.  Only
the imports of the document itself that are none of its files and that no file needs are left over,
in the main file. -/
theorem convert_links {d : Document} {r : Resolver} {files : List FileDescriptor} {s : Symbols}
    (hempty : d.package ≠ "") (hdot : Text.startsWith "." d.package = false)
    (haliases : d.PlainAliases) (hconvert : d.convert r = .ok files)
    (hlinks : d.LinksIn r files s) :
    ∃ main others, files = main :: others ∧ main.nameText = FileName.mainFile d.path ∧
      (∀ f ∈ others, f.nameText = d.serviceFile ∨ f.nameText = d.topicFile) ∧
      (∀ f ∈ files, f.dependencies.Pairwise (· < ·) ∧ f.nameText ∉ f.dependencies) ∧
      (∀ f ∈ others, s.link f = .ok ⟨f, []⟩) ∧
      ∃ unused, s.link main = .ok ⟨main, unused⟩ ∧ unused.Nodup ∧
        ∀ path, path ∈ unused ↔ path ∈ d.imports.filterMap Import.path ∧
          path ∉ files.map FileDescriptor.nameText ∧ ∀ f ∈ files, ¬ s.Needs f path := by
  have hpackage := Rooted.of_startsWith hempty hdot
  have hg := grounded hpackage hconvert hlinks haliases
  have hbacked := backed_lookups hpackage hconvert hlinks
  have hfiles := files_eq hconvert
  obtain ⟨main, others, hneeded, hdrafts, hmain, hothers⟩ := d.drafts_eq (d.conversion r)
  rw [hdrafts, List.map_cons] at hfiles
  let extended := { main with imports := main.imports ++ d.idleImports (main :: others) }
  have hmem : extended.descriptor ∈ files := by
    rw [hfiles]
    exact List.mem_cons_self
  have hmem' : ∀ draft ∈ others, draft.descriptor ∈ files := by
    intro draft hdraft
    rw [hfiles]
    exact List.mem_cons_of_mem _ (List.mem_map_of_mem hdraft)
  have hcovers := covers_drafts hg hbacked hpackage fun draft hdraft => by
    rw [hneeded] at hdraft
    rcases List.mem_cons.mp hdraft with rfl | hdraft
    · exact (hlinks.holds extended.descriptor hmem).names
    · exact (hlinks.holds draft.descriptor (hmem' draft hdraft)).names
  rw [hneeded] at hcovers
  refine ⟨extended.descriptor, others.map FileDraft.descriptor, hfiles, hmain, ?_, ?_, ?_, ?_⟩
  · intro f hf
    obtain ⟨draft, hdraft, rfl⟩ := List.mem_map.mp hf
    exact hothers draft hdraft
  · intro f hf
    rw [hfiles, ← List.map_cons] at hf
    obtain ⟨draft, -, rfl⟩ := List.mem_map.mp hf
    exact ⟨Sorted.pairwise_names _, fun h => (FileDraft.mem_dependencies.mp h).2 rfl⟩
  · intro f hf
    obtain ⟨draft, hdraft, rfl⟩ := List.mem_map.mp hf
    obtain ⟨unused, hlink, -, hunused⟩ := link_of_covers (List.append_nil _).symm
      (hcovers draft (List.mem_cons_of_mem main hdraft)) (hlinks.imported _ (hmem' draft hdraft))
    have hnil : unused = [] :=
      List.eq_nil_iff_forall_not_mem.mpr fun path h => absurd ((hunused path).mp h).1 List.not_mem_nil
    rw [hlink, hnil]
  · have hown : s.Covers extended.name extended.descriptor.uses main.imports :=
      hcovers main List.mem_cons_self
    obtain ⟨unused, hlink, hnodup, hunused⟩ := link_of_covers rfl hown (hlinks.imported _ hmem)
    refine ⟨unused, hlink, hnodup, fun path => ?_⟩
    have hnames : path ∉ files.map FileDescriptor.nameText ↔
        ∀ draft ∈ main :: others, path ≠ draft.name := by
      rw [hfiles, ← List.map_cons, List.map_map]
      simp only [List.mem_map, not_exists, not_and, List.forall_mem_cons]
      exact and_congr ⟨fun h heq => h heq.symm, fun h heq => h heq.symm⟩
        (forall₂_congr fun _ _ => ⟨fun h heq => h heq.symm, fun h heq => h heq.symm⟩)
    have hneeds : (∀ f ∈ files, ¬ s.Needs f path) ↔
        ∀ draft ∈ main :: others, ¬ s.Needs draft.descriptor path := by
      rw [hfiles]
      simp only [List.forall_mem_cons, List.forall_mem_map]
      exact Iff.rfl
    rw [hunused, mem_idleImports hcovers, hnames, hneeds]
    constructor
    · exact fun h => h.1
    · exact fun h => ⟨h, h.2.1 main List.mem_cons_self, h.2.2 main List.mem_cons_self⟩

/-- An order has items of another package.  Nothing uses the last import. -/
def orders : Document where
  path := "a/v1/a.j5s"
  package := "a.v1"
  imports := [{ package := some "b.v1", localName := some "stock" }, { path := some "b/v1/b.proto" },
    { path := some "c/v1/c.proto" }]
  elements :=
    [.object { name := "Order", properties :=
        [{ name := "items", schema := .map (.object (.named ⟨some "stock", "Item"⟩) false) {} },
         { name := "placedAt", schema := .timestamp none }] },
     .topic { name := "Order", kind := .publish [{ name := "Placed", properties :=
        [{ name := "order", schema := .object (.named ⟨none, "Order"⟩) false }] }] }]

def orderTypes : TypeTable := ⟨[⟨"b.v1", "Item", "b/v1/b.proto", .object none⟩]⟩

/-- The files of the order, and the two that the document imports. -/
def orderFiles : List FileDescriptor :=
  (orders.drafts (orders.conversion orderTypes.resolve) orders.nodes).map FileDraft.descriptor

def orderImports : List FileDescriptor :=
  [Catalog.file "b/v1/b.proto" "b.v1" [] [Catalog.message "Item" []],
    Catalog.file "c/v1/c.proto" "c.v1" [] []]

theorem convert_links_orders : ∃ files s, orders.convert orderTypes.resolve = .ok files ∧
    orders.LinksIn orderTypes.resolve files s ∧ ∃ main others, files = main :: others ∧ others ≠ [] ∧
      (∀ f ∈ others, s.link f = .ok ⟨f, []⟩) ∧ ∃ unused, s.link main = .ok ⟨main, unused⟩ ∧
        ∀ path, path ∈ unused ↔ path ∈ ["b/v1/b.proto", "c/v1/c.proto"] ∧
          path ∉ files.map FileDescriptor.nameText ∧ ∀ f ∈ files, ¬ s.Needs f path := by
  have hconvert : orders.convert orderTypes.resolve = .ok orderFiles := by
    have hnone : (orders.conversionErrors orderTypes.resolve).isEmpty = true := by decide +kernel
    rw [convert]
    exact if_pos hnone
  let fs := Catalog.standardFiles ++ (orderFiles ++ orderImports)
  obtain ⟨s, himports⟩ : ∃ s, fs.foldlM Symbols.importFile {} = .ok s :=
    Symbols.exists_imports (by decide +kernel) (List.Subset.refl _) (by decide +kernel)
      ⟨fun _ _ => rfl, fun _ _ _ hget => by cases hget⟩
  have hnames : (fs.map FileDescriptor.nameText).Nodup := by decide +kernel
  have hitem : ∀ t ∈ orderTypes.types, s.Declares t := by
    have hholds : ∀ f ∈ orderImports, s.Holds f := fun f hf =>
      Symbols.holds_of_imports himports (List.mem_append_right _ (List.mem_append_right _ hf)) rfl
        fun g hg heq => List.inj_on_of_nodup_map hnames hg
          (List.mem_append_right _ (List.mem_append_right _ hf)) heq
    refine List.forall_mem_singleton.mpr ⟨⟨.message, "b/v1/b.proto", none⟩, ?_, rfl, rfl⟩
    exact (hholds _ List.mem_cons_self).names ("b.v1.Item", _) (by decide)
  have hlinks : orders.LinksIn orderTypes.resolve orderFiles s := by
    refine linksIn_of_imports himports hnames (by decide +kernel) (List.subset_append_left _ _)
      (by decide +kernel) ?_
    rintro t ⟨target, -, -, hanswer⟩
    unfold TypeTable.resolve at hanswer
    split at hanswer
    · rename_i found hfound
      cases hanswer
      exact hitem _ (List.mem_reverse.mp (List.mem_of_find?_eq_some hfound))
    · split at hanswer <;> cases hanswer
  have haliases : orders.PlainAliases := by
    intro i hi name hname
    have hlocal : ∀ i ∈ orders.imports, i.localName = none ∨ i.localName = some "stock" := by decide
    rcases hlocal i hi with h | h <;> rw [h] at hname <;> cases hname
    decide
  obtain ⟨main, others, hfiles, -, -, -, hothers, unused, hmain, -, hunused⟩ :=
    convert_links (by decide) (by decide) haliases hconvert hlinks
  refine ⟨orderFiles, s, hconvert, hlinks, main, others, hfiles, ?_, hothers, unused, hmain, hunused⟩
  have hlength : orderFiles.length = 2 := by decide +kernel
  rintro rfl
  rw [hfiles] at hlength
  cases hlength

end Document
end Schematic
