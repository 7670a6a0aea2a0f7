import Schematic.Proofs.Conversion.Declared

/-!
# Imports are what is used

While a node is converted, the files it needs are put together in many places: for the type of
each kind of field, for each custom option, for topics and for polymorphs.  `Covers` says of a part
of a file that the list is right: all that is used there is sound and declared in the file itself
or in one of the list, and every file of the list declares something that is used.
-/

namespace Schematic

/-! ## Lists that are right -/

/-- All that is used is sound and declared in `own` or in an import, and every import is needed. -/
structure Symbols.Covers (s : Symbols) (own : String) (uses : List Use) (imports : List String) :
    Prop where
  sound : ∀ u ∈ uses, s.Sound u ∧ ∀ file, s.fileOf? u = some file → file = own ∨ file ∈ imports
  needed : ∀ file ∈ imports, ∃ u ∈ uses, s.fileOf? u = some file

namespace Symbols.Covers

variable {s : Symbols} {own : String} {uses uses' : List Use} {imports imports' : List String}

theorem nil (s : Symbols) (own : String) : s.Covers own [] [] :=
  ⟨fun _ h => absurd h List.not_mem_nil, fun _ h => absurd h List.not_mem_nil⟩

theorem append (h : s.Covers own uses imports) (h' : s.Covers own uses' imports') :
    s.Covers own (uses ++ uses') (imports ++ imports') where
  sound u hu := by
    rcases List.mem_append.mp hu with hu | hu
    · obtain ⟨hsound, hfile⟩ := h.sound u hu
      exact ⟨hsound, fun file hf => (hfile file hf).imp id (List.mem_append_left _)⟩
    · obtain ⟨hsound, hfile⟩ := h'.sound u hu
      exact ⟨hsound, fun file hf => (hfile file hf).imp id (List.mem_append_right _)⟩
  needed file hfile := by
    rcases List.mem_append.mp hfile with hfile | hfile
    · obtain ⟨u, hu, hneeds⟩ := h.needed file hfile
      exact ⟨u, List.mem_append_left _ hu, hneeds⟩
    · obtain ⟨u, hu, hneeds⟩ := h'.needed file hfile
      exact ⟨u, List.mem_append_right _ hu, hneeds⟩

/-- The order of the uses does not matter. -/
theorem of_mem (h : s.Covers own uses imports) (hmem : ∀ u, u ∈ uses' ↔ u ∈ uses) :
    s.Covers own uses' imports where
  sound u hu := h.sound u ((hmem u).mp hu)
  needed file hfile := by
    obtain ⟨u, hu, hneeds⟩ := h.needed file hfile
    exact ⟨u, (hmem u).mpr hu, hneeds⟩

theorem flatMap {α : Type} {l : List α} {uses : α → List Use} {imports : α → List String}
    (h : ∀ a ∈ l, s.Covers own (uses a) (imports a)) :
    s.Covers own (l.flatMap uses) (l.flatMap imports) := by
  induction l with
  | nil => exact nil s own
  | cons a rest ih =>
      rw [List.flatMap_cons, List.flatMap_cons]
      exact (h a List.mem_cons_self).append (ih fun b hb => h b (List.mem_cons_of_mem a hb))

/-- Something that is declared in the file itself needs no import. -/
theorem of_own {u : Use} (hsound : s.Sound u) (hfile : s.fileOf? u = some own) :
    s.Covers own [u] [] where
  sound := by
    refine List.forall_mem_singleton.mpr ⟨hsound, fun file hf => Or.inl ?_⟩
    rw [hfile, Option.some.injEq] at hf
    exact hf.symm
  needed _ h := absurd h List.not_mem_nil

theorem singleton {u : Use} {file : String} (hsound : s.Sound u) (hfile : s.fileOf? u = some file) :
    s.Covers own [u] [file] where
  sound := by
    refine List.forall_mem_singleton.mpr ⟨hsound, fun file' hf => Or.inr ?_⟩
    rw [hfile, Option.some.injEq] at hf
    rw [hf]
    exact List.mem_singleton_self _
  needed := List.forall_mem_singleton.mpr ⟨u, List.mem_singleton_self u, hfile⟩

end Symbols.Covers

/-! ## Types and options -/

namespace Symbols

variable {s : Symbols}

/-- A type that is named in full stands for its symbol. -/
theorem find_dotted (s : Symbols) (scope full : String) {symbol : Symbol}
    (h : s.lookup full = some symbol) (hkind : symbol.kind.isType = true) :
    s.find (fun symbol => symbol.kind.isType) scope ("." ++ full) = some (full, symbol) := by
  rw [find, Linker.find, Text.withoutStart?_dot]
  simp only [h, Option.filter_some, hkind, if_true, Option.map_some]

/-- A symbol that belongs to a type is that of a message or of an enum. -/
theorem isType_of_symbolKind {symbol : Symbol} {kind : TypeKind} (h : symbol.kind = kind.symbolKind) :
    symbol.kind.isType = true := by
  rw [h]
  cases kind <;> rfl

/-- The custom options are known, each in its file and for its level. -/
def KnowsOptions (s : Symbols) : Prop :=
  ∀ e ∈ Extension.all, ∀ element, ∃ full symbol,
    s.find (fun symbol => symbol.kind = .extension) element e.name = some (full, symbol) ∧
      symbol.file = e.file ∧ symbol.extendee = some ("google.protobuf." ++ e.level.messageName)

theorem covers_option (h : s.KnowsOptions) {e : Extension} (he : e ∈ Extension.all)
    (own element : String) :
    s.Covers own [.option element e.level e.name] [e.file] := by
  obtain ⟨full, symbol, hfind, hfile, hextendee⟩ := h e he element
  have htarget : s.target? (.option element e.level e.name) = some (full, symbol) := hfind
  refine .singleton ⟨full, symbol, htarget, hextendee⟩ ?_
  rw [fileOf?, htarget, Option.map_some, hfile]

/-- No custom option has a dot before its name. -/
theorem extensionName?_option {e : Extension} (he : e ∈ Extension.all) (body : OptionBody) :
    (e.option body).extensionName? = some e.name := by
  have hall : ∀ e ∈ Extension.all, Text.withoutLeading '.' e.name = e.name := by decide
  rw [UninterpretedOption.extensionName?, Extension.option]
  exact congrArg some (hall e he)

/-- Options need the files that declare them. -/
theorem covers_options (h : s.KnowsOptions) (used : List (Extension × OptionBody))
    {level : OptionLevel} (hused : ∀ x ∈ used, x.1 ∈ Extension.all ∧ x.1.level = level)
    (own element : String) :
    s.Covers own
      (Options.uses element level (some { uninterpreted := used.map fun x => x.1.option x.2 }))
      (used.map fun x => x.1.file) := by
  have huses : Options.uses element level
      (some { uninterpreted := used.map fun x => x.1.option x.2 }) =
      used.flatMap fun x => [.option element level x.1.name] := by
    rw [Options.uses, Option.map_some, Option.getD_some, List.filterMap_map]
    induction used with
    | nil => rfl
    | cons x rest ih =>
        have hx : ((fun o => UninterpretedOption.extensionName? o) ∘
            fun x : Extension × OptionBody => x.1.option x.2) x = some x.1.name :=
          extensionName?_option (hused x List.mem_cons_self).1 x.2
        rw [List.filterMap_cons_some hx, List.map_cons, List.flatMap_cons, List.singleton_append,
          ih fun y hy => hused y (List.mem_cons_of_mem x hy)]
  rw [huses, List.map_eq_flatMap]
  refine .flatMap fun x hx => ?_
  obtain ⟨hall, hlevel⟩ := hused x hx
  rw [← hlevel]
  exact covers_option h hall own element

/-- A field of a plain type needs nothing. -/
theorem covers_plain (s : Symbols) (own scope : String) (code : Int) :
    s.Covers own [.fieldType scope (some code) none] [] where
  sound := List.forall_mem_singleton.mpr
    ⟨(Option.some_ne_none code : some code ≠ none), fun _ hfile => by cases hfile⟩
  needed _ h := absurd h List.not_mem_nil

/-- A field that names a declared type needs the file of the type. -/
theorem covers_named {t : TypeRef} (h : s.Declares t) (own scope : String) (code : Int)
    (hcode : Linker.agrees t.kind.symbolKind (some code) = true) :
    s.Covers own [.fieldType scope (some code) (some t.dottedName)] [t.file] := by
  obtain ⟨symbol, hlookup, hkind, hfile⟩ := h
  have htarget : s.target? (.fieldType scope (some code) (some t.dottedName)) =
      some (t.fullName, symbol) := find_dotted s scope t.fullName hlookup (isType_of_symbolKind hkind)
  refine .singleton ⟨Option.some_ne_none code, t.fullName, symbol, htarget, rfl, ?_⟩ ?_
  · rw [hkind]
    exact hcode
  · rw [fileOf?, htarget, Option.map_some, hfile]

/-- A method that names a declared message needs its file. -/
theorem covers_message {t : TypeRef} (h : s.Declares t) (hmessage : t.kind.symbolKind = .message)
    (own scope : String) : s.Covers own [.message scope t.dottedName] [t.file] := by
  obtain ⟨symbol, hlookup, hkind, hfile⟩ := h
  have htarget : s.target? (.message scope t.dottedName) = some (t.fullName, symbol) :=
    find_dotted s scope t.fullName hlookup (isType_of_symbolKind hkind)
  refine .singleton ⟨t.fullName, symbol, htarget, rfl, hkind.trans hmessage⟩ ?_
  rw [fileOf?, htarget, Option.map_some, hfile]

section Own

variable {own full : String} (hfull : Rooted full)
  (h : s.table.get? full = some { kind := .message, file := own })

include hfull h

theorem find_own (scope : String) :
    s.find (fun symbol => symbol.kind.isType) scope ("." ++ full) =
      some (full, { kind := .message, file := own }) := by
  refine find_dotted s scope full ?_ rfl
  rw [lookup, hfull.withoutLeading, h]

/-- A field that names a message of its file needs no import. -/
theorem covers_field_own (scope : String) :
    s.Covers own [.fieldType scope (some FieldType.message) (some ("." ++ full))] [] := by
  have htarget : s.target? (.fieldType scope (some FieldType.message) (some ("." ++ full))) =
      some (full, { kind := .message, file := own }) := find_own hfull h scope
  refine .of_own ⟨Option.some_ne_none _, full, _, htarget, rfl, rfl⟩ ?_
  rw [fileOf?, htarget, Option.map_some]

theorem covers_message_own (scope : String) : s.Covers own [.message scope ("." ++ full)] [] := by
  have htarget : s.target? (.message scope ("." ++ full)) =
      some (full, { kind := .message, file := own }) := find_own hfull h scope
  refine .of_own ⟨full, _, htarget, rfl, rfl⟩ ?_
  rw [fileOf?, htarget, Option.map_some]

end Own

end Symbols

/-! ## Uses of drafts -/

namespace MessageDraft

/-- What the messages of drafts use. -/
def uses (scope : String) (ds : List MessageDraft) : List Use :=
  ds.flatMap fun d => d.descriptor.uses scope

theorem usesList_descriptors (scope : String) (ds : List MessageDraft) :
    MessageDescriptor.usesList scope (descriptors ds) = uses scope ds := by
  rw [MessageDescriptor.usesList_eq, descriptors_eq, List.flatMap_map]
  rfl

/-- Nothing of a field changes but the index of its oneof. -/
theorem map_lowerOptional {β : Type} {g : FieldDescriptor → β}
    (hg : ∀ f index, g { f with oneofIndex := index } = g f)
    (parts : List FieldDescriptor × List OneofDescriptor) (i : Nat) :
    (lowerOptional parts i).1.map g = parts.1.map g := by
  unfold lowerOptional
  split
  · rfl
  · rename_i f hf
    obtain ⟨hi, -⟩ := List.getElem?_eq_some_iff.mp hf
    rw [List.map_set]
    refine List.ext_getElem? fun j => ?_
    rw [List.getElem?_set]
    split
    · rename_i hij
      subst hij
      rw [List.getElem?_map, hf, if_pos (by rw [List.length_map]; exact hi), hg]
      rfl
    · rfl

theorem map_lowered {β : Type} {g : FieldDescriptor → β}
    (hg : ∀ f index, g { f with oneofIndex := index } = g f) (fields : List (Described FieldDescriptor))
    (oneofs : List (Described OneofDescriptor)) (synthetic : List Nat) :
    (lowered fields oneofs synthetic).1.map g = (fields.map Described.element).map g := by
  have hfold : ∀ parts : List FieldDescriptor × List OneofDescriptor,
      (synthetic.foldl lowerOptional parts).1.map g = parts.1.map g := by
    induction synthetic with
    | nil => exact fun _ => rfl
    | cons i rest ih => exact fun parts => (ih _).trans (map_lowerOptional hg parts i)
  exact hfold _

/-- The index of its oneof does not matter to what a field uses. -/
theorem uses_lowerOptional (scope : String) (parts : List FieldDescriptor × List OneofDescriptor)
    (i : Nat) :
    (lowerOptional parts i).1.flatMap (FieldDescriptor.uses scope) =
      parts.1.flatMap (FieldDescriptor.uses scope) ∧
    (lowerOptional parts i).2.flatMap (OneofDescriptor.uses scope) =
      parts.2.flatMap (OneofDescriptor.uses scope) := by
  constructor
  · rw [List.flatMap_def, map_lowerOptional fun _ _ => rfl, ← List.flatMap_def]
  · unfold lowerOptional
    split
    · rfl
    · rw [List.flatMap_append, List.flatMap_singleton]
      exact List.append_nil _

theorem uses_lowered (scope : String) (synthetic : List Nat)
    (parts : List FieldDescriptor × List OneofDescriptor) :
    (synthetic.foldl lowerOptional parts).1.flatMap (FieldDescriptor.uses scope) =
      parts.1.flatMap (FieldDescriptor.uses scope) ∧
    (synthetic.foldl lowerOptional parts).2.flatMap (OneofDescriptor.uses scope) =
      parts.2.flatMap (OneofDescriptor.uses scope) := by
  induction synthetic generalizing parts with
  | nil => exact ⟨rfl, rfl⟩
  | cons i rest ih =>
      obtain ⟨hfields, honeofs⟩ := ih (lowerOptional parts i)
      obtain ⟨hfields', honeofs'⟩ := uses_lowerOptional scope parts i
      exact ⟨hfields.trans hfields', honeofs.trans honeofs'⟩

/-- What a message uses, in terms of its draft. -/
theorem uses_descriptor (d : MessageDraft) {scope : String} (hscope : Rooted scope) :
    d.descriptor.uses scope =
      Options.uses (scope ++ "." ++ d.name) .message d.options ++
        (d.fields.map Described.element).flatMap (FieldDescriptor.uses (scope ++ "." ++ d.name)) ++
        (d.oneofs.map Described.element).flatMap (OneofDescriptor.uses (scope ++ "." ++ d.name)) ++
        uses (scope ++ "." ++ d.name) d.nested ++
        (d.enums.map EnumDraft.descriptor).flatMap (EnumDescriptor.uses (scope ++ "." ++ d.name)) := by
  obtain ⟨name, description, span, fields, oneofs, synthetic, nested, enums, options⟩ := d
  rw [descriptor, MessageDescriptor.uses, Option.getD_some, hscope.qualify, lowered,
    (uses_lowered _ synthetic _).1, (uses_lowered _ synthetic _).2, usesList_descriptors]
  exact List.append_nil _

end MessageDraft

namespace Conversion

variable {c : Conversion} {s : Symbols} {own : String}

/-! ## What a conversion rests on -/

/-- The types that fields of a kind of their own stand for. -/
def builtins : List RefName :=
  [WellKnown.decimal, WellKnown.date, WellKnown.timestamp, WellKnown.any]

/-- The table knows what every converted file may use: the custom options and the well-known types.
The types that fields of a kind of their own stand for are messages. -/
structure Grounded (c : Conversion) (s : Symbols) : Prop where
  options : s.KnowsOptions
  wellKnown : ∀ package name t, WellKnown.type? package name = some t → s.Declares t
  builtin : ∀ target ∈ builtins, ∀ t, c.lookup target = .ok t → t.kind.symbolKind = .message

/-- What the conversion finds under the names is declared. -/
def Backed (c : Conversion) (s : Symbols) (names : List RefName) : Prop :=
  ∀ target ∈ names, ∀ t, c.lookup target = .ok t → s.Declares t

theorem Backed.mono {names names' : List RefName} (h : c.Backed s names) (hsub : names' ⊆ names) :
    c.Backed s names' :=
  fun target htarget => h target (hsub htarget)

theorem backed_append {a b : List RefName} : c.Backed s (a ++ b) ↔ c.Backed s a ∧ c.Backed s b :=
  List.forall_mem_append

/-! ## Types of values -/

theorem covers_builtin (hg : c.Grounded s) {target : RefName} (htarget : target ∈ builtins)
    (hbacked : c.Backed s [target]) {value : ValueType} (h : c.builtin target = .ok value)
    (scope : String) :
    s.Covers own [.fieldType scope (some value.code) value.typeName] value.imports := by
  obtain ⟨found, hfound, h⟩ := bind_eq_ok h
  cases h
  refine Symbols.covers_named (hbacked target List.mem_cons_self found hfound) own scope _ ?_
  rw [hg.builtin target htarget found hfound]
  rfl

theorem covers_messageType {target : RefName} (hbacked : c.Backed s [target])
    {property expected : String}
    (hexpected : expected ≠ "enum") {value : ValueType}
    (h : c.messageType property target expected = .ok value) (scope : String) :
    s.Covers own [.fieldType scope (some value.code) value.typeName] value.imports := by
  obtain ⟨found, hfound, h⟩ := bind_eq_ok h
  split at h
  · rename_i hname
    cases h
    refine Symbols.covers_named (hbacked target List.mem_cons_self found hfound) own scope _ ?_
    cases hkind : found.kind with
    | enum table =>
        rw [hkind] at hname
        exact absurd hname.symm hexpected
    | _ => rfl
  · cases h

theorem covers_enumType {target : RefName} (hbacked : c.Backed s [target]) {property : String}
    {value : ValueType} (h : c.enumType property target = .ok value) (scope : String) :
    s.Covers own [.fieldType scope (some value.code) value.typeName] value.imports := by
  obtain ⟨found, hfound, h⟩ := bind_eq_ok h
  split at h
  · rename_i table hkind
    cases h
    refine Symbols.covers_named (hbacked target List.mem_cons_self found hfound) own scope _ ?_
    rw [hkind]
    rfl
  · cases h

/-- The type of a value needs the files that come with it. -/
theorem covers_valueType (hg : c.Grounded s) (property : String) {f : FieldNode}
    (hbacked : c.Backed s f.lookups) {value : ValueType} (h : c.valueType property f = .ok value)
    (scope : String) :
    s.Covers own [.fieldType scope (some value.code) value.typeName] value.imports := by
  cases f with
  | decimal _ | date _ | timestamp _ | any _ => exact covers_builtin hg (by decide) hbacked h scope
  | enum target _ _ => exact covers_enumType hbacked h scope
  | object target _ | oneof target | polymorph target =>
      exact covers_messageType hbacked (by decide) h scope
  | array _ _ _ | map _ _ => cases h
  | _ =>
      cases h
      exact Symbols.covers_plain s own scope _

theorem covers_itemType (hg : c.Grounded s) {property outer : String} {f : FieldNode}
    (hbacked : c.Backed s f.lookups) {value : ValueType} (h : c.itemType property outer f = .ok value)
    (scope : String) :
    s.Covers own [.fieldType scope (some value.code) value.typeName] value.imports := by
  cases f with
  | array _ _ _ | map _ _ => cases h
  | _ => exact covers_valueType hg property hbacked h scope

/-! ## Properties -/

/-- What the field and the entry of a property use. -/
def FieldPart.uses (message : String) (part : FieldPart) : List Use :=
  part.field.uses message ++ part.entry.toList.flatMap fun d => d.descriptor.uses message

/-- The type of the field and what its entry uses. -/
def Layout.uses (message : String) (l : Layout) : List Use :=
  .fieldType message l.field.type l.field.typeName ::
    l.entry.toList.flatMap fun d => d.descriptor.uses message

theorem uses_mapEntry {message name : String} (hmessage : Rooted message) (span : Span)
    (value : ValueType) :
    (mapEntry name span value).descriptor.uses message =
      [.fieldType (message ++ "." ++ name) (some FieldType.string) none,
        .fieldType (message ++ "." ++ name) (some value.code) value.typeName] := by
  rw [mapEntry, MessageDraft.descriptor, MessageDescriptor.uses, Option.getD_some, hmessage.qualify]
  rfl

/-- The entries of a map are a message of the file itself, so only their values need imports. -/
theorem covers_mapEntry {message name : String} (hmessage : Rooted message) (span : Span)
    {value : ValueType} (hentry : s.Has (MessageDraft.names own message [mapEntry name span value]))
    {imports : List String} (hvalue : s.Covers own
      [.fieldType (message ++ "." ++ name) (some value.code) value.typeName] imports) :
    s.Covers own
      (.fieldType message (some FieldType.message) (some ("." ++ message ++ "." ++ name)) ::
        (mapEntry name span value).descriptor.uses message) imports := by
  have hown : s.table.get? (message ++ "." ++ name) = some { kind := .message, file := own } := by
    refine hentry (_, _) (List.mem_flatMap.mpr ⟨_, List.mem_singleton_self _, ?_⟩)
    exact MessageDraft.mem_message _ hmessage (Or.inl rfl)
  have hfield := Symbols.covers_field_own ((hmessage.append ".").append name) hown message
  have hkey := Symbols.covers_plain s own (message ++ "." ++ name) FieldType.string
  rw [← String.append_assoc, ← String.append_assoc] at hfield
  rw [uses_mapEntry hmessage]
  exact hfield.append (hkey.append hvalue)

/-- The layout of a property needs the files that come with it. -/
theorem covers_layout (hg : c.Grounded s) {message : String} (hmessage : Rooted message)
    {p : PropertyNode} (hbacked : c.Backed s p.field.lookups) {l : Layout}
    (h : c.layout message p = .ok l)
    (hentry : s.Has (MessageDraft.names own message l.entry.toList)) :
    s.Covers own (l.uses message) l.imports := by
  unfold layout at h
  split at h
  · rename_i items _ _ hfield
    rw [hfield, FieldNode.lookups] at hbacked
    split at h
    · cases h
    · obtain ⟨value, hvalue, h⟩ := bind_eq_ok h
      cases h
      exact covers_itemType hg hbacked hvalue message
  · rename_i items _ hfield
    rw [hfield, FieldNode.lookups] at hbacked
    split at h
    · cases h
    · obtain ⟨value, hvalue, h⟩ := bind_eq_ok h
      cases h
      rw [Layout.uses, Option.toList_some, List.flatMap_singleton]
      exact covers_mapEntry hmessage p.span hentry (covers_itemType hg hbacked hvalue _)
  · rename_i harray hmap
    obtain ⟨value, hvalue, h⟩ := bind_eq_ok h
    cases h
    exact covers_valueType hg p.name hbacked hvalue message

/-- The options of a field need the files that come with them. -/
theorem covers_fieldOptions (hg : c.Grounded s) {p : PropertyNode} {enum : Option Validation.EnumView}
    {options : Options} {files : List String} (h : fieldOptions p enum = .ok (options, files))
    (own element : String) : s.Covers own (Options.uses element .field (some options)) files := by
  obtain ⟨validation, -, h⟩ := bind_eq_ok h
  obtain ⟨listing, -, h⟩ := bind_eq_ok h
  cases h
  have hall : ∀ e ∈ [Extension.field, Extension.validation, Extension.listing],
      e ∈ Extension.all ∧ e.level = .field := by decide
  refine Symbols.covers_options hg.options _ (fun x hx => hall x.1 ?_) own element
  simp only [List.cons_append, List.mem_cons, List.mem_append, Option.mem_toList,
    Option.map_eq_some_iff] at hx
  rcases hx with rfl | hx | ⟨body, -, rfl⟩
  · exact List.mem_cons_self
  · split at hx
    · cases hx
    · rw [List.mem_singleton.mp hx]
      exact List.mem_cons_of_mem _ List.mem_cons_self
  · exact List.mem_cons_of_mem _ (List.mem_cons_of_mem _ List.mem_cons_self)

/-- A property needs the files that come with it. -/
theorem covers_property (hg : c.Grounded s) {message : String} (hmessage : Rooted message)
    {oneof : Option Int} {p : PropertyNode} (hbacked : c.Backed s p.field.lookups) {part : FieldPart}
    (h : c.property message oneof p = .ok part)
    (hentry : s.Has (MessageDraft.names own message part.entry.toList)) :
    s.Covers own (part.uses message) part.imports := by
  unfold property at h
  split at h
  · cases h
  · obtain ⟨l, hlayout, h⟩ := bind_eq_ok h
    obtain ⟨⟨options, files⟩, hoptions, h⟩ := bind_eq_ok h
    cases h
    have htype := covers_layout hg hmessage hbacked hlayout hentry
    have hfield := covers_fieldOptions hg hoptions own (qualify message l.field.nameText)
    refine (htype.append hfield).of_mem fun u => ?_
    simp only [FieldPart.uses, Layout.uses, FieldDescriptor.uses, List.mem_append, List.mem_cons,
      List.not_mem_nil, or_false]
    tauto

/-- Neither the files that a property needs nor whether it has an error depend on the message. -/
theorem property_imports (c : Conversion) (message message' : String) (oneof : Option Int)
    (p : PropertyNode) :
    (c.property message oneof p).map FieldPart.imports =
      (c.property message' oneof p).map FieldPart.imports := by
  have hlayout : (c.layout message p).map (fun l => (l.enum, l.imports)) =
      (c.layout message' p).map fun l => (l.enum, l.imports) := by
    unfold layout
    split
    · rfl
    · split
      · rfl
      · rename_i items _ _ _
        cases c.itemType p.name "map" items <;> rfl
    · rfl
  unfold property
  split
  · rfl
  · cases hl : c.layout message p with
    | error e =>
        cases hl' : c.layout message' p with
        | error e' =>
            rw [hl, hl'] at hlayout
            cases hlayout
            rfl
        | ok l' =>
            rw [hl, hl'] at hlayout
            cases hlayout
    | ok l =>
        cases hl' : c.layout message' p with
        | error e' =>
            rw [hl, hl'] at hlayout
            cases hlayout
        | ok l' =>
            rw [hl, hl'] at hlayout
            simp only [Except.map, Except.ok.injEq, Prod.mk.injEq] at hlayout
            simp only [Bind.bind, Except.bind, hlayout.1, hlayout.2]
            cases fieldOptions p l'.enum <;> rfl

theorem partImports_eq (c : Conversion) (message : String) (oneof : Option Int)
    (properties : List PropertyNode) :
    c.partImports oneof properties =
      (c.parts message oneof properties).flatMap fun x => x.2.imports := by
  rw [partImports, parts, parts]
  induction properties with
  | nil => rfl
  | cons p rest ih =>
      have himports := property_imports c "" message oneof p
      cases h : c.property "" oneof p with
      | error e =>
          cases h' : c.property message oneof p with
          | error e' =>
              rw [List.filterMap_cons_none (by simp only [h]),
                List.filterMap_cons_none (by simp only [h'])]
              exact ih
          | ok part' =>
              rw [h, h'] at himports
              cases himports
      | ok part =>
          cases h' : c.property message oneof p with
          | error e' =>
              rw [h, h'] at himports
              cases himports
          | ok part' =>
              rw [h, h'] at himports
              simp only [Except.map, Except.ok.injEq] at himports
              rw [List.filterMap_cons_some (b := (p, part)) (by simp only [h]),
                List.filterMap_cons_some (b := (p, part')) (by simp only [h']), List.flatMap_cons,
                List.flatMap_cons, ih]
              exact congrArg (· ++ _) himports

/-- Parts need the files that come with them. -/
theorem covers_parts (hg : c.Grounded s) {message : String} (hmessage : Rooted message)
    {oneof : Option Int} {properties : List PropertyNode}
    (hbacked : c.Backed s (PropertyNode.lookups properties))
    (hentries : s.Has (MessageDraft.names own message (entries (c.parts message oneof properties)))) :
    s.Covers own ((c.parts message oneof properties).flatMap fun x => x.2.uses message)
      (c.partImports oneof properties) := by
  rw [partImports_eq c message]
  refine .flatMap fun x hx => ?_
  have hx' := hx
  obtain ⟨p, hp, hpart⟩ := List.mem_filterMap.mp hx
  split at hpart
  · rename_i part hproperty
    cases hpart
    refine covers_property hg hmessage (hbacked.mono fun _ ht => List.mem_flatMap_of_mem hp ht)
      hproperty (hentries.mono ?_)
    intro entry hentry
    obtain ⟨d, hd, hentry⟩ := List.mem_flatMap.mp hentry
    exact List.mem_flatMap.mpr ⟨d, List.mem_filterMap.mpr ⟨_, hx', Option.mem_toList.mp hd⟩, hentry⟩
  · cases hpart

/-! ## Schemas -/

/-- One custom option needs its file. -/
theorem covers_one (hg : c.Grounded s) (e : Extension) (he : e ∈ Extension.all) (body : OptionBody)
    (own element : String) :
    s.Covers own (Options.uses element e.level (some { uninterpreted := [e.option body] })) [e.file] :=
  Symbols.covers_options hg.options [(e, body)] (List.forall_mem_singleton.mpr ⟨he, rfl⟩) own element

theorem covers_enum (hg : c.Grounded s) (node : EnumNode) (own outer : String) :
    s.Covers own ((enumDraft node).descriptor.uses outer)
      (if node.entity.isSome then [Extension.enum.file] else []) := by
  have hvalues : (enumDraft node).descriptor.values.flatMap
      (EnumValueDescriptor.uses (qualify outer node.head.name)) = [] := by
    refine List.flatMap_eq_nil_iff.mpr fun v hv => ?_
    obtain ⟨described, hdescribed, rfl⟩ := List.mem_map.mp hv
    obtain ⟨value, -, rfl⟩ := List.mem_map.mp hdescribed
    rfl
  have huses : (enumDraft node).descriptor.uses outer =
      Options.uses (qualify outer node.head.name) .enum (enumDraft node).options ++
        (enumDraft node).descriptor.values.flatMap
          (EnumValueDescriptor.uses (qualify outer node.head.name)) := rfl
  rw [huses, hvalues, List.append_nil, enumDraft]
  cases node.entity with
  | none => exact .nil s own
  | some e => exact covers_one hg .enum (by decide) (entityBody (some e)) own _

theorem covers_polymorph (hg : c.Grounded s) (node : PolymorphNode) (own : String) {outer : String}
    (houter : Rooted outer) :
    s.Covers own ((polymorphDraft node).descriptor.uses outer)
      [WellKnown.anyFile, Extension.message.file] := by
  have hany := Symbols.covers_named (hg.wellKnown "j5.types.any.v1" "Any" _ rfl) own
    (outer ++ "." ++ node.head.name) FieldType.message rfl
  have hoption := covers_one hg .message (by decide) (polymorphBody node.members) own
    (outer ++ "." ++ node.head.name)
  refine (hany.append hoption).of_mem fun u => ?_
  rw [(polymorphDraft node).uses_descriptor houter]
  simp only [polymorphDraft, List.map_cons, List.map_nil, List.flatMap_cons, List.flatMap_nil,
    MessageDraft.uses, List.append_nil, List.mem_append]
  exact or_comm

/-- The fields and entries of parts use what the parts use. -/
theorem mem_uses_parts {message : String} {parts : List (PropertyNode × FieldPart)} {u : Use} :
    u ∈ parts.flatMap (fun x => x.2.uses message) ↔
      u ∈ ((fields parts).map Described.element).flatMap (FieldDescriptor.uses message) ∨
        u ∈ MessageDraft.uses message (entries parts) := by
  induction parts with
  | nil => simp [fields, entries, MessageDraft.uses]
  | cons x rest ih =>
      have hentries : entries (x :: rest) = x.2.entry.toList ++ entries rest := by
        obtain ⟨p, part⟩ := x
        rw [entries, entries, List.filterMap_cons]
        dsimp only
        cases part.entry <;> rfl
      have hfields : (fields (x :: rest)).map Described.element =
          x.2.field :: (fields rest).map Described.element := rfl
      rw [hentries, hfields, MessageDraft.uses, List.flatMap_append, List.flatMap_cons,
        List.flatMap_cons]
      rw [MessageDraft.uses] at ih
      simp only [List.mem_append, FieldPart.uses]
      tauto

/-- A message of an object or a oneof: what it uses is its own option, what its parts use and what is
used inside it. -/
theorem covers_members (hg : c.Grounded s) {outer : String} (houter : Rooted outer) (d : MessageDraft)
    {body : OptionBody} {parts : List (PropertyNode × FieldPart)} {inner : List MessageDraft}
    {imports imports' : List String}
    (hoptions : d.options = some { uninterpreted := [Extension.message.option body] })
    (hfields : d.fields = fields parts) (honeofs : ∀ o ∈ d.oneofs, o.element.options = none)
    (hnested : d.nested = entries parts ++ inner)
    (hparts : s.Covers own (parts.flatMap fun x => x.2.uses (outer ++ "." ++ d.name)) imports)
    (hinner : s.Covers own (MessageDraft.uses (outer ++ "." ++ d.name) inner ++
      (d.enums.map EnumDraft.descriptor).flatMap (EnumDescriptor.uses (outer ++ "." ++ d.name)))
      imports') :
    s.Covers own (d.descriptor.uses outer) (Extension.message.file :: imports ++ imports') := by
  have hoption := covers_one hg .message (by decide) body own (outer ++ "." ++ d.name)
  have honeofs' : (d.oneofs.map Described.element).flatMap
      (OneofDescriptor.uses (outer ++ "." ++ d.name)) = [] := by
    refine List.flatMap_eq_nil_iff.mpr fun o ho => ?_
    obtain ⟨described, hdescribed, rfl⟩ := List.mem_map.mp ho
    rw [OneofDescriptor.uses, honeofs described hdescribed]
    rfl
  refine ((hoption.append hparts).append hinner).of_mem fun u => ?_
  rw [d.uses_descriptor houter, hoptions, hfields, honeofs', hnested, MessageDraft.uses,
    List.flatMap_append]
  simp only [List.mem_append, mem_uses_parts, List.append_nil, MessageDraft.uses, Extension.message]
  tauto

/-- What a message declares holds of its entries and of the messages inside it. -/
theorem has_nested {outer : String} (houter : Rooted outer) (d : MessageDraft)
    {a b : List MessageDraft} (hnested : d.nested = a ++ b)
    (h : s.Has (Declared.message own outer d.descriptor)) :
    s.Has (MessageDraft.names own (outer ++ "." ++ d.name) a) ∧
      s.Has (MessageDraft.names own (outer ++ "." ++ d.name) b) := by
  rw [← Symbols.has_append, ← MessageDraft.names_append, ← hnested]
  exact h.mono fun entry hentry => d.mem_message houter (Or.inr (Or.inl hentry))

section Schemas

variable (hg : c.Grounded s)

include hg

mutual

theorem covers_object {outer : String} (houter : Rooted outer) : (node : ObjectNode) →
    c.Backed s node.lookups → s.Has (Declared.message own outer (c.objectDraft outer node).descriptor) →
    s.Covers own ((c.objectDraft outer node).descriptor.uses outer) (c.objectImports node)
  | { head, properties, nested, entity, polymorphMember }, hbacked, hhas => by
      rw [ObjectNode.lookups, backed_append, backed_append] at hbacked
      have hmessage := (houter.append ".").append head.name
      rw [objectDraft] at hhas ⊢
      obtain ⟨hentries, hinner⟩ := has_nested houter _ rfl hhas
      rw [objectImports]
      exact covers_members hg houter _ rfl rfl (fun _ h => absurd h List.not_mem_nil) rfl
        (covers_parts hg hmessage hbacked.1.2 hentries)
        (covers_schemas hmessage nested hbacked.2 hinner)

theorem covers_oneof {outer : String} (houter : Rooted outer) : (node : OneofNode) →
    c.Backed s node.lookups → s.Has (Declared.message own outer (c.oneofDraft outer node).descriptor) →
    s.Covers own ((c.oneofDraft outer node).descriptor.uses outer) (c.oneofImports node)
  | { head, properties, nested, entity }, hbacked, hhas => by
      rw [OneofNode.lookups, backed_append] at hbacked
      have hmessage := (houter.append ".").append head.name
      rw [oneofDraft] at hhas ⊢
      obtain ⟨hentries, hinner⟩ := has_nested houter _ rfl hhas
      rw [oneofImports]
      exact covers_members hg houter _ rfl rfl (List.forall_mem_singleton.mpr rfl) rfl
        (covers_parts hg hmessage hbacked.1 hentries)
        (covers_schemas hmessage nested hbacked.2 hinner)

/-- Schemas need the files that come with them. -/
theorem covers_schemas {outer : String} (houter : Rooted outer) : (nodes : List SchemaNode) →
    c.Backed s (SchemaNode.lookupsList nodes) →
    s.Has (MessageDraft.names own outer (c.messageDrafts outer nodes)) →
    s.Covers own (MessageDraft.uses outer (c.messageDrafts outer nodes) ++
      ((enumDrafts nodes).map EnumDraft.descriptor).flatMap (EnumDescriptor.uses outer))
      (c.schemaImportsList nodes)
  | [], _, _ => .nil s own
  | .object node :: rest, hbacked, hhas => by
      rw [SchemaNode.lookupsList, backed_append] at hbacked
      rw [messageDrafts, MessageDraft.names, List.flatMap_cons, Symbols.has_append] at hhas
      rw [messageDrafts, MessageDraft.uses, List.flatMap_cons, List.append_assoc]
      exact (covers_object houter node hbacked.1 hhas.1).append
        (covers_schemas houter rest hbacked.2 hhas.2)
  | .oneof node :: rest, hbacked, hhas => by
      rw [SchemaNode.lookupsList, backed_append] at hbacked
      rw [messageDrafts, MessageDraft.names, List.flatMap_cons, Symbols.has_append] at hhas
      rw [messageDrafts, MessageDraft.uses, List.flatMap_cons, List.append_assoc]
      exact (covers_oneof houter node hbacked.1 hhas.1).append
        (covers_schemas houter rest hbacked.2 hhas.2)
  | .polymorph node :: rest, hbacked, hhas => by
      rw [SchemaNode.lookupsList, backed_append] at hbacked
      rw [messageDrafts, MessageDraft.names, List.flatMap_cons, Symbols.has_append] at hhas
      rw [messageDrafts, MessageDraft.uses, List.flatMap_cons, List.append_assoc]
      exact (covers_polymorph hg node own houter).append (covers_schemas houter rest hbacked.2 hhas.2)
  | .enum node :: rest, hbacked, hhas => by
      rw [SchemaNode.lookupsList, backed_append] at hbacked
      have henum := covers_enum hg node own outer
      refine (henum.append (covers_schemas houter rest hbacked.2 hhas)).of_mem fun u => ?_
      have henums : enumDrafts (.enum node :: rest) = enumDraft node :: enumDrafts rest := rfl
      rw [messageDrafts, henums, List.map_cons, List.flatMap_cons]
      simp only [List.mem_append]
      tauto

end

/-! ## Services and topics -/

/-- What a list of objects declares and needs, object by object. -/
theorem covers_objects {package : String} (hpackage : Rooted package) {objects : List ObjectNode}
    (hbacked : c.Backed s (objects.flatMap ObjectNode.lookups))
    (hhas : s.Has (MessageDraft.names own package (objects.map (c.objectDraft package)))) :
    s.Covers own (MessageDraft.uses package (objects.map (c.objectDraft package)))
      (objects.flatMap c.objectImports) := by
  rw [MessageDraft.uses, List.flatMap_map]
  refine .flatMap fun node hnode => covers_object hg hpackage node ?_ (hhas.mono ?_)
  · exact hbacked.mono fun _ ht => List.mem_flatMap_of_mem hnode ht
  · exact fun _ hentry => List.mem_flatMap_of_mem (List.mem_map_of_mem hnode) hentry

omit hg in
/-- A payload of the file is named by a method without an import. -/
theorem covers_payload {package : String} (hpackage : Rooted package) {objects : List ObjectNode}
    (hhas : s.Has (MessageDraft.names own package (objects.map (c.objectDraft package))))
    {node : ObjectNode} (hnode : node ∈ objects) (scope : String) :
    s.Covers own [.message scope ("." ++ package ++ "." ++ node.head.name)] [] := by
  have hown : s.table.get? (package ++ "." ++ node.head.name) =
      some { kind := .message, file := own } := by
    refine hhas (_, _) (List.mem_flatMap_of_mem (List.mem_map_of_mem hnode) ?_)
    obtain ⟨head, properties, nested, entity, polymorphMember⟩ := node
    rw [objectDraft]
    exact MessageDraft.mem_message _ hpackage (Or.inl rfl)
  have hcovers := Symbols.covers_message_own ((hpackage.append ".").append node.head.name) hown scope
  rw [← String.append_assoc, ← String.append_assoc] at hcovers
  exact hcovers

omit hg in
theorem level_of_methodOptions {service : ServiceNode} {m : MethodNode} :
    ∀ x ∈ methodOptions service m, x.1 ∈ Extension.all ∧ x.1.level = .method := by
  have hall : ∀ e ∈ [Extension.http, Extension.method], e ∈ Extension.all ∧ e.level = .method := by
    decide
  intro x hx
  refine hall x.1 ?_
  rw [methodOptions, List.mem_cons, Option.mem_toList, Option.map_eq_some_iff] at hx
  rcases hx with rfl | ⟨kind, -, rfl⟩
  · exact List.mem_cons_self
  · exact List.mem_cons_of_mem _ List.mem_cons_self

theorem covers_method {package : String} (hpackage : Rooted package) {service : ServiceNode}
    (hhas : s.Has (MessageDraft.names own package (service.objects.map (c.objectDraft package))))
    {m : MethodNode} (hm : m ∈ service.methods) (scope name : String) :
    s.Covers own ((methodDescriptor package service m).uses scope name)
      ((methodOptions service m).map fun x => x.1.file) := by
  have hrequest : m.request ∈ service.objects := List.mem_flatMap.mpr ⟨m, hm, List.mem_cons_self⟩
  have hresponse : m.response ∈ service.objects :=
    List.mem_flatMap.mpr ⟨m, hm, List.mem_cons_of_mem _ List.mem_cons_self⟩
  have htypes := (covers_payload hpackage hhas hrequest scope).append
    (covers_payload hpackage hhas hresponse scope)
  have hoptions := Symbols.covers_options hg.options (methodOptions service m) level_of_methodOptions
    own (qualify name m.name)
  have hall := hoptions.append htypes
  rw [List.append_nil, List.append_nil] at hall
  exact hall

/-- A service needs the files that come with it. -/
theorem covers_service {package : String} (hpackage : Rooted package) (node : ServiceNode)
    (hbacked : c.Backed s (node.objects.flatMap ObjectNode.lookups))
    (hhas : s.Has (MessageDraft.names own package (node.objects.map (c.objectDraft package)))) :
    s.Covers own ((serviceDraft package node).descriptor.uses package ++
      MessageDraft.uses package (node.objects.map (c.objectDraft package))) (c.serviceImports node) := by
  refine .append ?_ (covers_objects hg hpackage hbacked hhas)
  have hmethods : s.Covers own
      ((node.methods.map fun m => methodDescriptor package node m).flatMap
        (MethodDescriptor.uses package (qualify package node.head.name)))
      (node.methods.flatMap fun m => (methodOptions node m).map fun x => x.1.file) := by
    rw [List.flatMap_map]
    exact .flatMap fun m hm => covers_method hg hpackage hhas hm _ _
  have hlist : (serviceDraft package node).descriptor.methods =
      node.methods.map fun m => methodDescriptor package node m := List.map_map
  rw [ServiceDescriptor.uses, hlist]
  refine .append ?_ hmethods
  show s.Covers own (Options.uses (qualify package node.head.name) .service
    (serviceDraft package node).options) _
  rw [serviceDraft]
  cases node.entity with
  | none => exact .nil s own
  | some e => exact covers_one hg .service (by decide) (serviceEntityBody e) own _

/-- A topic needs the files that come with it.  It has a message, whose method answers with the empty
one. -/
theorem covers_topic {package : String} (hpackage : Rooted package) (node : TopicNode)
    (hmessages : node.messages ≠ []) (hbacked : c.Backed s (node.objects.flatMap ObjectNode.lookups))
    (hhas : s.Has (MessageDraft.names own package (node.objects.map (c.objectDraft package)))) :
    s.Covers own ((topicDraft package node).descriptor.uses package ++
      MessageDraft.uses package (node.objects.map (c.objectDraft package))) (c.topicImports node) := by
  have hobjects := covers_objects hg hpackage hbacked hhas
  have hoption := covers_one hg .messaging (by decide) (topicBody node) own
    (qualify package (node.head.name ++ "Topic"))
  have hempty := Symbols.covers_message (hg.wellKnown "google.protobuf" "Empty" _ rfl) rfl own package
  have hmethod : ∀ m ∈ node.messages, s.Covers own
      [.message package ("." ++ package ++ "." ++ m.message.head.name),
        .message package ("." ++ WellKnown.empty.text)] [WellKnown.emptyFile] :=
    fun m hm => (covers_payload hpackage hhas (List.mem_map_of_mem hm) package).append hempty
  have hmethods : s.Covers own (node.messages.flatMap fun m =>
      [.message package ("." ++ package ++ "." ++ m.message.head.name),
        .message package ("." ++ WellKnown.empty.text)]) [WellKnown.emptyFile] := by
    have hall := Symbols.Covers.flatMap hmethod
    obtain ⟨m, rest, hlist⟩ := List.exists_cons_of_ne_nil hmessages
    refine ⟨fun u hu => ?_, fun file hfile => hall.needed file ?_⟩
    · obtain ⟨hsound, hfile⟩ := hall.sound u hu
      refine ⟨hsound, fun file hf => (hfile file hf).imp id fun hmem => ?_⟩
      obtain ⟨_, _, hmem⟩ := List.mem_flatMap.mp hmem
      exact hmem
    · rw [hlist]
      exact List.mem_flatMap.mpr ⟨m, List.mem_cons_self, hfile⟩
  have hlist : (topicDraft package node).descriptor.uses package =
      Options.uses (qualify package (node.head.name ++ "Topic")) .service
        (some { uninterpreted := [Extension.messaging.option (topicBody node)] }) ++
      node.messages.flatMap fun m =>
        [.message package ("." ++ package ++ "." ++ m.message.head.name),
          .message package ("." ++ WellKnown.empty.text)] := by
    rw [ServiceDescriptor.uses, topicDraft, ServiceDraft.descriptor, List.map_map, List.flatMap_map]
    rfl
  rw [hlist]
  exact (hoption.append hmethods).append hobjects

end Schemas

end Conversion
end Schematic
