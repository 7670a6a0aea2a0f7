import Schematic.Link.File
import Schematic.Proofs.Link.Symbols

/-!
# What a file uses

The fields and methods of a file name types, and its elements carry custom options.  `uses`
lists these without looking any of them up.  A file in which each of them is sound, and
declared in the file itself or in one that it imports, links and stays as it is, and the
imports it needs are the files in which they are declared.
-/

namespace Schematic

/-- What an element of a file uses.  A name without a dot before it is looked for from the scope
outwards. -/
inductive Use where
  /-- The type of a field, with the name of a type if it has one. -/
  | fieldType (scope : String) (type : Option Int) (name : Option String)
  /-- A message named by a method or an extension. -/
  | message (scope name : String)
  /-- A custom option of an element. -/
  | option (element : String) (level : OptionLevel) (name : String)

/-! ## The uses of a file -/

def Options.uses (element : String) (level : OptionLevel) (o : Option Options) : List Use :=
  ((o.map Options.uninterpreted).getD [] |>.filterMap UninterpretedOption.extensionName?).map
    (Use.option element level)

def FieldDescriptor.uses (scope : String) (f : FieldDescriptor) : List Use :=
  Options.uses (qualify scope f.nameText) .field f.options ++ [.fieldType scope f.type f.typeName]

/-- An extension also names what it extends. -/
def FieldDescriptor.extensionUses (scope : String) (f : FieldDescriptor) : List Use :=
  (f.extendee.map (Use.message scope)).toList ++ f.uses scope

def OneofDescriptor.uses (scope : String) (o : OneofDescriptor) : List Use :=
  Options.uses (qualify scope o.nameText) .oneof o.options

def EnumValueDescriptor.uses (scope : String) (v : EnumValueDescriptor) : List Use :=
  Options.uses (qualify scope v.nameText) .enumValue v.options

def EnumDescriptor.uses (scope : String) (e : EnumDescriptor) : List Use :=
  Options.uses (qualify scope e.nameText) .enum e.options ++
    e.values.flatMap (EnumValueDescriptor.uses (qualify scope e.nameText))

mutual

def MessageDescriptor.uses (scope : String) : MessageDescriptor → List Use
  | { name, fields, nested, enums, extensions, options, oneofs, .. } =>
    let inner := qualify scope (name.getD "")
    Options.uses inner .message options ++ fields.flatMap (FieldDescriptor.uses inner) ++
      oneofs.flatMap (OneofDescriptor.uses inner) ++ MessageDescriptor.usesList inner nested ++
      enums.flatMap (EnumDescriptor.uses inner) ++
      extensions.flatMap (FieldDescriptor.extensionUses inner)

def MessageDescriptor.usesList (scope : String) : List MessageDescriptor → List Use
  | [] => []
  | m :: rest => MessageDescriptor.uses scope m ++ MessageDescriptor.usesList scope rest

end

theorem MessageDescriptor.usesList_eq (scope : String) (ms : List MessageDescriptor) :
    usesList scope ms = ms.flatMap (uses scope) := by
  induction ms with
  | nil => rfl
  | cons m rest ih => rw [usesList, ih, List.flatMap_cons]

def MethodDescriptor.uses (scope service : String) (m : MethodDescriptor) : List Use :=
  Options.uses (qualify service m.nameText) .method m.options ++
    [.message scope (m.inputType.getD ""), .message scope (m.outputType.getD "")]

def ServiceDescriptor.uses (scope : String) (s : ServiceDescriptor) : List Use :=
  Options.uses (qualify scope s.nameText) .service s.options ++
    s.methods.flatMap (MethodDescriptor.uses scope (qualify scope s.nameText))

/-- All that a file uses. -/
def FileDescriptor.uses (f : FileDescriptor) : List Use :=
  Options.uses f.packageText .file f.options ++
    MessageDescriptor.usesList f.packageText f.messages ++
    f.enums.flatMap (EnumDescriptor.uses f.packageText) ++
    f.extensions.flatMap (FieldDescriptor.extensionUses f.packageText) ++
    f.services.flatMap (ServiceDescriptor.uses f.packageText)

/-! ## What a use stands for -/

namespace Symbols

variable (s : Symbols)

def find (accept : Symbol → Bool) (scope name : String) : Option (String × Symbol) :=
  Linker.find ⟨"", [], s⟩ accept scope name

/-- The name in full of what is used, and its symbol. -/
def target? : Use → Option (String × Symbol)
  | .fieldType scope _ name => name.bind (s.find (fun symbol => symbol.kind.isType) scope)
  | .message scope name => s.find (fun symbol => symbol.kind.isType) scope name
  | .option element _ name => s.find (fun symbol => symbol.kind = .extension) element name

/-- The file that declares what is used. -/
def fileOf? (u : Use) : Option String :=
  (s.target? u).map fun target => target.2.file

/-- Something in the file needs `path`. -/
def Needs (f : FileDescriptor) (path : String) : Prop :=
  ∃ u ∈ f.uses, s.fileOf? u = some path

/-- What is used is found, is what it has to be, and is named in full where it is a type. -/
def Sound (u : Use) : Prop :=
  match u with
  | .fieldType _ type none => type ≠ none
  | .fieldType _ type (some name) => type ≠ none ∧ ∃ full symbol, s.target? u = some (full, symbol) ∧
      name = "." ++ full ∧ Linker.agrees symbol.kind type = true
  | .message _ name => ∃ full symbol, s.target? u = some (full, symbol) ∧ name = "." ++ full ∧
      symbol.kind = .message
  | .option _ level _ => ∃ full symbol, s.target? u = some (full, symbol) ∧
      symbol.extendee = some ("google.protobuf." ++ level.messageName)

end Symbols

/-! ## Linking what is sound -/

namespace Linker

variable (l : Linker)

/-- The imports that a use needs. -/
def imports (u : Use) : List String :=
  ((l.symbols.fileOf? u).filter (· ≠ l.file)).toList

/-- What is used is sound, and its file is this one or imported. -/
def Accepts (u : Use) : Prop :=
  l.symbols.Sound u ∧ ∀ file, l.symbols.fileOf? u = some file → file = l.file ∨ file ∈ l.dependencies

variable {l}

theorem needed_of_accepts {u : Use} (h : l.Accepts u) {full : String} {symbol : Symbol}
    (htarget : l.symbols.target? u = some (full, symbol)) (element name : String) :
    l.needed element name symbol = .ok (l.imports u) := by
  have hfile : l.symbols.fileOf? u = some symbol.file := by
    rw [Symbols.fileOf?, htarget, Option.map_some]
  rw [needed, imports, hfile]
  by_cases hown : symbol.file = l.file
  · rw [if_pos hown, Option.filter_some_neg (by simpa using hown)]
    rfl
  · have hmem := (h.2 symbol.file hfile).resolve_left hown
    rw [if_neg hown, if_pos (List.contains_iff_mem.mpr hmem), Option.filter_some_pos (by simpa using hown)]
    rfl

theorem options_of_accepts {element : String} {level : OptionLevel} {o : Option Options}
    (h : ∀ u ∈ Options.uses element level o, l.Accepts u) :
    l.options element level o = .ok ((Options.uses element level o).flatMap l.imports) := by
  have heach : ∀ name ∈ ((o.map Options.uninterpreted).getD [] |>.filterMap
      UninterpretedOption.extensionName?),
      l.extension element level name = .ok (l.imports (.option element level name)) := by
    intro name hname
    have haccepts := h (.option element level name) (List.mem_map_of_mem hname)
    obtain ⟨full, symbol, htarget, hextendee⟩ := haccepts.1
    have hfind : l.find (fun s => s.kind = .extension) element name = some (full, symbol) := htarget
    rw [extension, hfind]
    simp only [hextendee, if_true]
    exact needed_of_accepts haccepts htarget element full
  unfold options Options.uses
  generalize ((o.map Options.uninterpreted).getD [] |>.filterMap
    UninterpretedOption.extensionName?) = names at heach ⊢
  have hall : names.mapM (l.extension element level) =
      .ok (names.map fun name => l.imports (.option element level name)) := by
    induction names with
    | nil => rfl
    | cons name rest ih =>
        rw [List.mapM_cons, heach name List.mem_cons_self,
          ih fun n hn => heach n (List.mem_cons_of_mem name hn)]
        rfl
  simp only [hall, List.flatMap_map]
  rfl

theorem each_of_accepts {α : Type} {link : α → Except LinkError (α × List String)}
    {uses : α → List Use} {items : List α}
    (hlink : ∀ a, (∀ u ∈ uses a, l.Accepts u) → link a = .ok (a, (uses a).flatMap l.imports))
    (h : ∀ u ∈ items.flatMap uses, l.Accepts u) :
    each link items = .ok (items, (items.flatMap uses).flatMap l.imports) := by
  induction items with
  | nil => rfl
  | cons a rest ih =>
      rw [List.flatMap_cons, List.forall_mem_append] at h
      rw [each, hlink a h.1, ih h.2, List.flatMap_cons, List.flatMap_append]
      rfl

theorem type_of_accepts {u : Use} (h : l.Accepts u) {scope name full : String} {symbol : Symbol}
    (htarget : l.symbols.target? u = some (full, symbol))
    (hfind : l.find (fun s => s.kind.isType) scope name = some (full, symbol)) (element : String) :
    l.type element scope name = .ok (full, symbol.kind, l.imports u) := by
  rw [type, hfind]
  simp only [needed_of_accepts h htarget element full]
  rfl

theorem messageType_of_accepts {scope name : String} (h : l.Accepts (.message scope name))
    (element : String) :
    l.messageType element scope name = .ok (name, l.imports (.message scope name)) := by
  obtain ⟨full, symbol, htarget, hname, hkind⟩ := h.1
  rw [messageType, type_of_accepts h htarget htarget element]
  simp only [Bind.bind, Except.bind, hkind, if_true, hname]
  rfl

theorem field_of_accepts {scope : String} (f : FieldDescriptor)
    (h : ∀ u ∈ f.uses scope, l.Accepts u) :
    l.field scope f = .ok (f, (f.uses scope).flatMap l.imports) := by
  rw [FieldDescriptor.uses, List.forall_mem_append, List.forall_mem_singleton] at h
  obtain ⟨hoptions, htype⟩ := h
  rw [field, options_of_accepts hoptions, FieldDescriptor.uses, List.flatMap_append,
    List.flatMap_singleton]
  obtain ⟨name, number, label, type, typeName, extendee, defaultValue, oneofIndex, jsonName,
    proto3Optional, options⟩ := f
  cases typeName with
  | none =>
      have hsome : type ≠ none := htype.1
      have himports : l.imports (.fieldType scope type none) = [] := rfl
      simp only [Bind.bind, Except.bind, if_neg hsome, himports, List.append_nil]
      rfl
  | some name =>
      obtain ⟨hsome, full, symbol, htarget, hname, hagrees⟩ := htype.1
      obtain ⟨code, rfl⟩ := Option.ne_none_iff_exists'.mp hsome
      have hfind : l.find (fun s => s.kind.isType) scope name = some (full, symbol) := htarget
      have hlinked := type_of_accepts htype htarget hfind
      simp only [Bind.bind, Except.bind, hlinked, hagrees, if_true, Option.getD_some, ← hname]
      rfl

theorem extensionField_of_accepts {scope : String} (f : FieldDescriptor)
    (h : ∀ u ∈ f.extensionUses scope, l.Accepts u) :
    l.extensionField scope f = .ok (f, (f.extensionUses scope).flatMap l.imports) := by
  rw [FieldDescriptor.extensionUses, List.forall_mem_append] at h
  rw [extensionField, FieldDescriptor.extensionUses, List.flatMap_append]
  cases hextendee : f.extendee with
  | none => exact field_of_accepts f h.2
  | some name =>
      have hmessage := h.1 (.message scope name) (by rw [hextendee]; exact List.mem_singleton_self _)
      have hsame : { f with extendee := some name } = f := by rw [← hextendee]
      simp only [messageType_of_accepts hmessage, Bind.bind, Except.bind, hsame,
        field_of_accepts f h.2, Option.map_some, Option.toList_some, List.flatMap_singleton]
      rfl

theorem oneof_of_accepts {scope : String} (o : OneofDescriptor)
    (h : ∀ u ∈ o.uses scope, l.Accepts u) :
    l.oneof scope o = .ok (o, (o.uses scope).flatMap l.imports) := by
  rw [oneof, options_of_accepts h]
  rfl

theorem enumValue_of_accepts {scope : String} (v : EnumValueDescriptor)
    (h : ∀ u ∈ v.uses scope, l.Accepts u) :
    l.enumValue scope v = .ok (v, (v.uses scope).flatMap l.imports) := by
  rw [enumValue, options_of_accepts h]
  rfl

theorem enum_of_accepts {scope : String} (e : EnumDescriptor)
    (h : ∀ u ∈ e.uses scope, l.Accepts u) :
    l.enum scope e = .ok (e, (e.uses scope).flatMap l.imports) := by
  rw [EnumDescriptor.uses, List.forall_mem_append] at h
  rw [enum, options_of_accepts h.1, each_of_accepts enumValue_of_accepts h.2, EnumDescriptor.uses,
    List.flatMap_append]
  rfl

mutual

theorem message_of_accepts {scope : String} : (m : MessageDescriptor) →
    (∀ u ∈ m.uses scope, l.Accepts u) →
    l.message scope m = .ok (m, (m.uses scope).flatMap l.imports)
  | { name, fields, nested, enums, extensionRanges, extensions, options, oneofs, reservedRanges,
      reservedNames }, h => by
      simp only [MessageDescriptor.uses, List.forall_mem_append] at h
      obtain ⟨⟨⟨⟨⟨hoptions, hfields⟩, honeofs⟩, hnested⟩, henums⟩, hextensions⟩ := h
      rw [message, options_of_accepts hoptions, each_of_accepts field_of_accepts hfields,
        each_of_accepts oneof_of_accepts honeofs, messages_of_accepts nested hnested,
        each_of_accepts enum_of_accepts henums, each_of_accepts extensionField_of_accepts hextensions]
      simp only [MessageDescriptor.uses, List.flatMap_append]
      rfl

theorem messages_of_accepts {scope : String} : (ms : List MessageDescriptor) →
    (∀ u ∈ MessageDescriptor.usesList scope ms, l.Accepts u) →
    l.messages scope ms = .ok (ms, (MessageDescriptor.usesList scope ms).flatMap l.imports)
  | [], _ => rfl
  | m :: rest, h => by
      rw [MessageDescriptor.usesList, List.forall_mem_append] at h
      rw [messages, message_of_accepts m h.1, messages_of_accepts rest h.2,
        MessageDescriptor.usesList, List.flatMap_append]
      rfl

end

theorem method_of_accepts {scope service : String} (m : MethodDescriptor)
    (h : ∀ u ∈ m.uses scope service, l.Accepts u) :
    l.method scope service m = .ok (m, (m.uses scope service).flatMap l.imports) := by
  rw [MethodDescriptor.uses, List.forall_mem_append, List.forall_mem_cons,
    List.forall_mem_singleton] at h
  obtain ⟨hoptions, hinput, houtput⟩ := h
  -- An empty name is not the name of a message in full, so both names are there.
  have hnamed : ∀ name : Option String, l.Accepts (.message scope (name.getD "")) →
      some (name.getD "") = name := by
    intro name haccepts
    obtain ⟨full, -, -, hname, -⟩ := haccepts.1
    cases name with
    | none =>
        have hlength := congrArg String.length hname
        rw [String.length_append] at hlength
        have hdot : ".".length = 1 := rfl
        have hempty : ((none : Option String).getD "").length = 0 := rfl
        omega
    | some name => rfl
  rw [method, options_of_accepts hoptions, messageType_of_accepts hinput,
    messageType_of_accepts houtput, MethodDescriptor.uses, List.flatMap_append, List.flatMap_cons,
    List.flatMap_singleton, ← List.append_assoc]
  simp only [Bind.bind, Except.bind, hnamed _ hinput, hnamed _ houtput]
  rfl

theorem service_of_accepts {scope : String} (s : ServiceDescriptor)
    (h : ∀ u ∈ s.uses scope, l.Accepts u) :
    l.service scope s = .ok (s, (s.uses scope).flatMap l.imports) := by
  rw [ServiceDescriptor.uses, List.forall_mem_append] at h
  rw [service, options_of_accepts h.1, each_of_accepts method_of_accepts h.2,
    ServiceDescriptor.uses, List.flatMap_append]
  rfl

theorem fileParts_of_accepts {f : FileDescriptor} (h : ∀ u ∈ f.uses, l.Accepts u) :
    l.fileParts f = .ok (f, f.uses.flatMap l.imports) := by
  simp only [FileDescriptor.uses, List.forall_mem_append] at h
  obtain ⟨⟨⟨⟨hoptions, hmessages⟩, henums⟩, hextensions⟩, hservices⟩ := h
  rw [fileParts, options_of_accepts hoptions, messages_of_accepts _ hmessages,
    each_of_accepts enum_of_accepts henums, each_of_accepts extensionField_of_accepts hextensions,
    each_of_accepts service_of_accepts hservices]
  simp only [FileDescriptor.uses, List.flatMap_append]
  rfl

theorem mem_imports {u : Use} {path : String} :
    path ∈ l.imports u ↔ path ≠ l.file ∧ l.symbols.fileOf? u = some path := by
  rw [imports, Option.mem_toList, Option.filter_eq_some_iff, and_comm]
  simp

end Linker

/-- A file in which all uses are sound and declared in the file itself or in one it imports
links as it is.  The imports that it does not need are left over. -/
theorem Symbols.link_of_sound {s : Symbols} {f : FileDescriptor}
    (hfiles : ∀ d ∈ f.dependencies, s.containsFile d = true)
    (huses : ∀ u ∈ f.uses, s.Sound u ∧
      ∀ file, s.fileOf? u = some file → file = f.nameText ∨ file ∈ f.dependencies) :
    ∃ unused, s.link f = .ok ⟨f, unused⟩ ∧ unused.Sublist f.dependencies ∧
      ∀ path, path ∈ unused ↔ path ∈ f.dependencies ∧ (path = f.nameText ∨ ¬ s.Needs f path) := by
  have hfind : (f.dependencies.find? fun d => !s.containsFile d) = none := by
    refine List.find?_eq_none.mpr fun d hd => ?_
    simp [hfiles d hd]
  have hparts := Linker.fileParts_of_accepts (l := ⟨f.nameText, f.dependencies, s⟩) huses
  refine ⟨f.dependencies.filter fun d => !(f.uses.flatMap
    (Linker.imports ⟨f.nameText, f.dependencies, s⟩)).contains d, ?_, List.filter_sublist,
    fun path => ?_⟩
  · rw [link, hfind]
    simp only [hparts, Bind.bind, Except.bind]
    rfl
  · rw [List.mem_filter, Bool.not_eq_true', Bool.eq_false_iff, ne_eq, List.contains_iff_mem,
      List.mem_flatMap]
    refine and_congr_right fun _ => ?_
    simp only [Linker.mem_imports, Needs]
    constructor
    · intro h
      by_cases hown : path = f.nameText
      · exact Or.inl hown
      · refine Or.inr ?_
        rintro ⟨u, hu, hfile⟩
        exact h ⟨u, hu, hown, hfile⟩
    · rintro (hown | hneeds) ⟨u, hu, hne, hfile⟩
      · exact hne hown
      · exact hneeds ⟨u, hu, hfile⟩

end Schematic
