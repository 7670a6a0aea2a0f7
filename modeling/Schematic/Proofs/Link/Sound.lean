import Schematic.Link.File
import Schematic.Proofs.Descriptor.Path
import Schematic.Proofs.Link.Visible
import Schematic.Proofs.Package.Repository
import Schematic.Proofs.Text.Segments

/-!
# Linking is sound

A linked file has the elements of the file it was made from, each in its place.  Every type that a field,
an extension or a method names is written in full and is declared where the file can see it, and so is
every custom option.
-/

namespace Schematic

/-! ## Scopes -/

/-- A scope is another one or stands around it. -/
def Encloses (outer scope : String) : Prop :=
  outer = "" ∨ Text.Begins outer scope

theorem encloses_qualify (scope name : String) : Encloses scope (qualify scope name) := by
  by_cases h : scope = ""
  · exact Or.inl h
  · rw [qualify, if_neg h]
    exact Or.inr (Or.inr ⟨name, rfl⟩)

theorem Encloses.qualify {outer scope : String} (h : Encloses outer scope) (name : String) :
    Encloses outer (qualify scope name) := by
  rcases h with h | h
  · exact Or.inl h
  · by_cases hscope : scope = ""
    · -- Only the empty name begins the empty scope.
      left
      rcases h with h | ⟨rest, h⟩
      · rw [← h, hscope]
      · rw [hscope] at h
        exact (String.append_eq_empty_iff.mp (String.append_eq_empty_iff.mp h.symm).1).1
    · rw [Schematic.qualify, if_neg hscope]
      rcases h with rfl | ⟨rest, rfl⟩
      · exact Or.inr (Or.inr ⟨name, rfl⟩)
      · exact Or.inr (Or.inr ⟨rest ++ "." ++ name, by simp only [String.append_assoc]⟩)

namespace Linker

theorem mem_scopes {outer scope : String} : outer ∈ scopes scope ↔ Encloses outer scope := by
  rw [scopes, Encloses, Text.begins_iff, List.mem_map]
  simp only [List.mem_reverse, List.mem_range]
  constructor
  · rintro ⟨n, -, rfl⟩
    by_cases hn : n = 0
    · rw [hn]
      exact Or.inl rfl
    · exact Or.inr ⟨n, by omega, rfl⟩
  · rintro (rfl | ⟨n, -, rfl⟩)
    · exact ⟨0, by omega, rfl⟩
    · refine ⟨min n (Text.pieces '.' scope).length, by omega, ?_⟩
      rw [← List.take_take, List.take_length]

/-- The scopes around a scope get shorter outwards. -/
theorem pairwise_scopes (scope : String) :
    (scopes scope).Pairwise fun inner outer => outer.length ≤ inner.length := by
  have hrange : (List.range ((Text.pieces '.' scope).length + 1)).Pairwise (· < ·) :=
    List.pairwise_lt_range
  rw [scopes, List.pairwise_map, List.pairwise_reverse]
  exact hrange.imp fun hlt => Text.length_join_take_le _ (Nat.le_of_lt hlt)

end Linker

/-! ## What a name stands for -/

namespace Symbols

variable (s : Symbols)

/-- What a name stands for in a scope, among the symbols that `accept` accepts.  Without a dot before it
that is the candidate in the innermost scope that has one. -/
inductive StandsFor (accept : Symbol → Bool) (scope : String) : String → String → Symbol → Prop
  | absolute {full : String} {symbol : Symbol} (found : s.lookup full = some symbol)
      (accepted : accept symbol = true) : StandsFor accept scope ("." ++ full) full symbol
  | relative {name outer : String} {symbol : Symbol} (dotless : Text.startsWith "." name = false)
      (encloses : Encloses outer scope) (found : s.lookup (qualify outer name) = some symbol)
      (accepted : accept symbol = true)
      (innermost : ∀ other, Encloses other scope → outer.length < other.length →
        ∀ symbol, s.lookup (qualify other name) = some symbol → accept symbol = false) :
      StandsFor accept scope name (qualify outer name) symbol

variable {s}

theorem StandsFor.lookup {accept : Symbol → Bool} {scope name full : String} {symbol : Symbol}
    (h : s.StandsFor accept scope name full symbol) :
    s.lookup full = some symbol ∧ accept symbol = true := by
  cases h with
  | absolute found accepted => exact ⟨found, accepted⟩
  | relative _ _ found accepted => exact ⟨found, accepted⟩

theorem lookup_dot (full : String) : s.lookup ("." ++ full) = s.lookup full := by
  have hchars : ("." ++ full).toList = '.' :: full.toList := by
    rw [String.toList_append]
    rfl
  rw [Symbols.lookup, Symbols.lookup, Text.withoutLeading, Text.withoutLeading, hchars,
    List.dropWhile_cons_of_pos (by rfl)]

end Symbols

theorem Linker.standsFor_of_find {l : Linker} {accept : Symbol → Bool} {scope name full : String}
    {symbol : Symbol} (h : l.find accept scope name = some (full, symbol)) :
    l.symbols.StandsFor accept scope name full symbol := by
  have hfound : ∀ {candidate : String}, ((l.symbols.lookup candidate).filter accept).map
      (fun symbol => (candidate, symbol)) = some (full, symbol) →
      candidate = full ∧ l.symbols.lookup full = some symbol ∧ accept symbol = true := by
    intro candidate hcandidate
    obtain ⟨found, hfilter, heq⟩ := Option.map_eq_some_iff.mp hcandidate
    obtain ⟨rfl, rfl⟩ := Prod.mk.inj heq
    exact ⟨rfl, Option.filter_eq_some_iff.mp hfilter⟩
  rw [find] at h
  cases hstart : Text.withoutStart? "." name with
  | some rest =>
      rw [hstart] at h
      obtain ⟨rfl, hlookup, haccept⟩ := hfound h
      rw [Text.withoutStart?_eq_some_iff.mp hstart]
      exact .absolute hlookup haccept
  | none =>
      rw [hstart] at h
      have hdotless : Text.startsWith "." name = false := by
        rw [Text.startsWith_eq_isSome, hstart]
        rfl
      obtain ⟨inner, outer, around, hscopes, hcandidate, hnone⟩ := List.findSome?_eq_some_iff.mp h
      obtain ⟨rfl, hlookup, haccept⟩ := hfound hcandidate
      have hencloses : Encloses outer scope := by
        rw [← mem_scopes, hscopes]
        exact List.mem_append_right _ List.mem_cons_self
      refine .relative hdotless hencloses hlookup haccept fun other hother hlonger known hknown => ?_
      -- A longer scope comes before the one that was taken, where nothing was found.
      have hsorted := pairwise_scopes scope
      rw [← mem_scopes] at hother
      rw [hscopes] at hother hsorted
      have hinner : other ∈ inner := by
        rcases List.mem_append.mp hother with hmem | hmem
        · exact hmem
        · have hlength : other.length ≤ outer.length := by
            rcases List.mem_cons.mp hmem with rfl | hmem
            · exact Nat.le_refl _
            · exact (List.pairwise_cons.mp (List.pairwise_append.mp hsorted).2.1).1 other hmem
          omega
      have hmiss := hnone other hinner
      rw [Option.map_eq_none_iff, Option.filter_eq_none_iff] at hmiss
      exact Bool.eq_false_iff.mpr (hmiss known hknown)

/-! ## Elements and linked elements -/

/-- The names of the custom options that are set. -/
def Options.extensionNames (options : Option Options) : List String :=
  ((options.map Options.uninterpreted).getD []).filterMap UninterpretedOption.extensionName?

namespace Symbols

variable (s : Symbols) (visible : List String)

/-- The custom options of an element are extensions of the options of its level.  They are looked for from
the element outwards. -/
def OptionsLinked (scope : String) (level : OptionLevel) (options : Option Options) : Prop :=
  ∀ name ∈ Options.extensionNames options, ∃ element full symbol, Encloses scope element ∧
    s.StandsFor (fun symbol => symbol.kind = .extension) element name full symbol ∧
    symbol.extendee = some ("google.protobuf." ++ level.messageName) ∧ symbol.file ∈ visible

/-- A type's name in a scope and the name that linking writes for it. -/
structure TypeLinked (scope name linked : String) (symbol : Symbol) : Prop where
  named : ∃ full, linked = "." ++ full ∧
    s.StandsFor (fun symbol => symbol.kind.isType) scope name full symbol
  found : s.lookup linked = some symbol
  isType : symbol.kind = .message ∨ symbol.kind = .enum
  seen : symbol.file ∈ visible

/-- A name of a message and the name that linking writes for it. -/
def MessageLinked (scope name : String) (linked : Option String) : Prop :=
  ∃ full symbol, linked = some full ∧ s.TypeLinked visible scope name full symbol ∧
    symbol.kind = .message

/-- A field keeps what it has, apart from its type, which agrees with what its type name stands for. -/
structure FieldLinked (scope : String) (f f' : FieldDescriptor) : Prop where
  same : f' = { f with type := f'.type, typeName := f'.typeName }
  untyped : f.typeName = none → f'.typeName = none ∧ f'.type = f.type ∧ f.type ≠ none
  typed : ∀ name, f.typeName = some name → ∃ linked symbol, f'.typeName = some linked ∧
    s.TypeLinked visible scope name linked symbol ∧
    (f'.type = some FieldType.enum ↔ symbol.kind = .enum) ∧
    (symbol.kind ≠ .enum → f'.type = some FieldType.message ∨ f'.type = some FieldType.group)
  options : s.OptionsLinked visible scope .field f.options

variable {s visible} in
theorem FieldLinked.nameText {scope : String} {f f' : FieldDescriptor}
    (h : s.FieldLinked visible scope f f') : f'.nameText = f.nameText := by
  have hname := congrArg FieldDescriptor.nameText h.same
  exact hname

/-- An extension is a field that also names what it extends. -/
structure ExtensionLinked (scope : String) (f f' : FieldDescriptor) : Prop where
  field : s.FieldLinked visible scope { f with extendee := f'.extendee } f'
  absent : f.extendee = none → f'.extendee = none
  extendee : ∀ name, f.extendee = some name → s.MessageLinked visible scope name f'.extendee

/-- The names of a method are looked for from the package outwards. -/
structure MethodLinked (package scope : String) (m m' : MethodDescriptor) : Prop where
  same : m' = { m with inputType := m'.inputType, outputType := m'.outputType }
  input : s.MessageLinked visible package (m.inputType.getD "") m'.inputType
  output : s.MessageLinked visible package (m.outputType.getD "") m'.outputType
  options : s.OptionsLinked visible scope .method m.options

variable {s visible} in
theorem MethodLinked.nameText {package scope : String} {m m' : MethodDescriptor}
    (h : s.MethodLinked visible package scope m m') : m'.nameText = m.nameText := by
  have hname := congrArg MethodDescriptor.nameText h.same
  exact hname

/-- An element of a file and the one in its place in the linked file. -/
inductive PartLinked (package scope : String) : FilePart → FilePart → Prop
  | message {m m' : MessageDescriptor} (name : m'.name = m.name) (kept : m'.options = m.options)
      (options : s.OptionsLinked visible scope .message m.options) :
      PartLinked package scope (.message m) (.message m')
  | field {f f' : FieldDescriptor} (linked : s.FieldLinked visible scope f f') :
      PartLinked package scope (.field f) (.field f')
  | oneof {o : OneofDescriptor} (options : s.OptionsLinked visible scope .oneof o.options) :
      PartLinked package scope (.oneof o) (.oneof o)
  | enum {e : EnumDescriptor} (options : s.OptionsLinked visible scope .enum e.options) :
      PartLinked package scope (.enum e) (.enum e)
  | enumValue {v : EnumValueDescriptor}
      (options : s.OptionsLinked visible scope .enumValue v.options) :
      PartLinked package scope (.enumValue v) (.enumValue v)
  | service {t t' : ServiceDescriptor} (name : t'.name = t.name) (kept : t'.options = t.options)
      (options : s.OptionsLinked visible scope .service t.options) :
      PartLinked package scope (.service t) (.service t')
  | method {m m' : MethodDescriptor} (linked : s.MethodLinked visible package scope m m') :
      PartLinked package scope (.method m) (.method m')
  | extension {f f' : FieldDescriptor} (linked : s.ExtensionLinked visible scope f f') :
      PartLinked package scope (.extension f) (.extension f')

end Symbols

/-! ## Names and options -/

namespace Linker

variable {l : Linker}

/-- The files whose names a file can use. -/
def visible (l : Linker) : List String :=
  l.file :: l.dependencies

theorem seen_of_needed {element name : String} {symbol : Symbol} {used : List String}
    (h : l.needed element name symbol = .ok used) : symbol.file ∈ l.visible :=
  List.mem_cons.mpr (sees_of_needed h)

theorem type_linked {element scope name full : String} {kind : SymbolKind} {used : List String}
    (h : l.type element scope name = .ok (full, kind, used)) :
    ∃ symbol, l.symbols.TypeLinked l.visible scope name ("." ++ full) symbol ∧ symbol.kind = kind := by
  rw [type] at h
  split at h
  · cases h
  · rename_i found symbol hfind
    obtain ⟨others, hneeded, h⟩ := bind_eq_ok h
    cases h
    have hstands := standsFor_of_find hfind
    refine ⟨symbol, ⟨⟨_, rfl, hstands⟩, ?_, ?_, seen_of_needed hneeded⟩, rfl⟩
    · rw [Symbols.lookup_dot]
      exact hstands.lookup.1
    · have htype := hstands.lookup.2
      cases hkind : symbol.kind <;> simp [hkind, SymbolKind.isType] at htype ⊢

theorem messageType_linked {element scope name linked : String} {used : List String}
    (h : l.messageType element scope name = .ok (linked, used)) :
    l.symbols.MessageLinked l.visible scope name (some linked) := by
  obtain ⟨⟨full, kind, others⟩, htype, h⟩ := bind_eq_ok h
  obtain ⟨symbol, hlinked, hkind⟩ := type_linked htype
  simp only at h
  split at h
  · rename_i hmessage
    cases h
    exact ⟨_, symbol, rfl, hlinked, hkind.trans hmessage⟩
  · cases h

theorem extension_linked {element name : String} {level : OptionLevel} {used : List String}
    (h : l.extension element level name = .ok used) : ∃ full symbol,
      l.symbols.StandsFor (fun symbol => symbol.kind = .extension) element name full symbol ∧
        symbol.extendee = some ("google.protobuf." ++ level.messageName) ∧ symbol.file ∈ l.visible := by
  simp only [extension] at h
  split at h
  · cases h
  · rename_i full symbol hfind
    split at h
    · rename_i hextendee
      exact ⟨full, symbol, standsFor_of_find hfind, hextendee, seen_of_needed h⟩
    · cases h

theorem options_linked {scope element : String} {level : OptionLevel} {options : Option Options}
    {used : List String} (hscope : Encloses scope element)
    (h : l.options element level options = .ok used) :
    l.symbols.OptionsLinked l.visible scope level options := by
  obtain ⟨all, hall, -⟩ := bind_eq_ok h
  intro name hname
  obtain ⟨one, -, hone⟩ := exists_mem_of_mapM hall hname
  obtain ⟨full, symbol, hlinked⟩ := extension_linked hone
  exact ⟨element, full, symbol, hscope, hlinked⟩

/-! ## Fields, enums and methods -/

theorem each_forall₂ {α : Type} {link : α → Except LinkError (α × List String)} {R : α → α → Prop}
    (hlink : ∀ a a' used, link a = .ok (a', used) → R a a') {items items' : List α}
    {used : List String} (h : each link items = .ok (items', used)) : List.Forall₂ R items items' := by
  induction items generalizing items' used with
  | nil =>
      cases h
      exact .nil
  | cons a rest ih =>
      obtain ⟨⟨a', first⟩, ha, h⟩ := bind_eq_ok h
      obtain ⟨⟨rest', others⟩, hrest, h⟩ := bind_eq_ok h
      cases h
      exact .cons (hlink a a' first ha) (ih hrest)

theorem field_linked {scope : String} {f f' : FieldDescriptor} {used : List String}
    (h : l.field scope f = .ok (f', used)) : l.symbols.FieldLinked l.visible scope f f' := by
  obtain ⟨first, hfirst, h⟩ := bind_eq_ok h
  have hoptions : l.symbols.OptionsLinked l.visible scope .field f.options :=
    options_linked (encloses_qualify scope f.nameText) hfirst
  clear hfirst
  cases hname : f.typeName with
  | none =>
      simp only [hname] at h
      split at h
      · cases h
      · rename_i htype
        cases h
        refine ⟨rfl, fun _ => ⟨hname, rfl, htype⟩, fun name hsome => ?_, hoptions⟩
        rw [hname] at hsome
        cases hsome
  | some name =>
      simp only [hname] at h
      obtain ⟨⟨full, kind, others⟩, htype, h⟩ := bind_eq_ok h
      obtain ⟨symbol, hlinked, rfl⟩ := type_linked htype
      simp only at h
      split at h
      · rename_i hagrees
        cases h
        refine ⟨rfl, fun hnone => ?_, fun name' hsome => ?_, hoptions⟩
        · rw [hname] at hnone
          cases hnone
        · rw [hname, Option.some.injEq] at hsome
          obtain ⟨henum, hother⟩ := type_of_agrees hlinked.isType hagrees
          exact ⟨_, symbol, rfl, hsome ▸ hlinked, henum, hother⟩
      · cases h
where
  /-- The type that is written agrees with the symbol, declared or not. -/
  type_of_agrees {kind : SymbolKind} {declared : Option Int} (hkind : kind = .message ∨ kind = .enum)
      (h : agrees kind declared = true) :
      (some (declared.getD (fieldType kind)) = some FieldType.enum ↔ kind = .enum) ∧
        (kind ≠ .enum → some (declared.getD (fieldType kind)) = some FieldType.message ∨
          some (declared.getD (fieldType kind)) = some FieldType.group) := by
    have hcases : declared = none ∨ declared = some (fieldType kind) ∨
        declared = some FieldType.group ∧ kind ≠ .enum := by
      simpa [agrees, or_assoc] using h
    rcases hkind with rfl | rfl
    · rcases hcases with rfl | rfl | ⟨rfl, -⟩ <;> decide
    · rcases hcases with rfl | rfl | ⟨-, hne⟩
      · decide
      · decide
      · exact absurd rfl hne

theorem extensionField_linked {scope : String} {f f' : FieldDescriptor} {used : List String}
    (h : l.extensionField scope f = .ok (f', used)) :
    l.symbols.ExtensionLinked l.visible scope f f' := by
  cases hextendee : f.extendee with
  | none =>
      simp only [extensionField, hextendee] at h
      have hfield := field_linked h
      have hkept : f'.extendee = none := (congrArg FieldDescriptor.extendee hfield.same).trans hextendee
      refine ⟨?_, fun _ => hkept, fun name hsome => ?_⟩
      · rw [hkept, ← hextendee]
        exact hfield
      · rw [hextendee] at hsome
        cases hsome
  | some name =>
      simp only [extensionField, hextendee] at h
      obtain ⟨⟨extendee, first⟩, hmessage, h⟩ := bind_eq_ok h
      obtain ⟨⟨f'', others⟩, hfield, h⟩ := bind_eq_ok h
      cases h
      have hlinked := field_linked hfield
      have hkept : f''.extendee = some extendee := congrArg FieldDescriptor.extendee hlinked.same
      refine ⟨?_, fun hnone => ?_, fun name' hsome => ?_⟩
      · rw [hkept]
        exact hlinked
      · rw [hextendee] at hnone
        cases hnone
      · rw [hextendee, Option.some.injEq] at hsome
        rw [hkept, ← hsome]
        exact messageType_linked hmessage

theorem method_linked {scope service : String} {m m' : MethodDescriptor} {used : List String}
    (h : l.method scope service m = .ok (m', used)) :
    l.symbols.MethodLinked l.visible scope service m m' := by
  obtain ⟨first, hoptions, h⟩ := bind_eq_ok h
  obtain ⟨⟨input, second⟩, hinput, h⟩ := bind_eq_ok h
  obtain ⟨⟨output, third⟩, houtput, h⟩ := bind_eq_ok h
  cases h
  exact ⟨rfl, messageType_linked hinput, messageType_linked houtput,
    options_linked (encloses_qualify service m.nameText) hoptions⟩

/-! ## Places -/

/-- Elements of a linked file and of the file it was made from stand in the same places. -/
def PlaceLinked (l : Linker) (package : String) : Option (String × FilePart) →
    Option (String × FilePart) → Prop :=
  Option.Rel fun place place' => place.1 = place'.1 ∧
    l.symbols.PartLinked l.visible package place.1 place.2 place'.2

/-- An element is linked with all that stands in it. -/
def Linked (l : Linker) (package scope : String) (p p' : FilePart) : Prop :=
  ∀ path, l.PlaceLinked package (p.place? scope path) (p'.place? scope path)

def RowsLinked (l : Linker) (package scope : String) (rows rows' : List (Int × List FilePart)) : Prop :=
  List.Forall₂ (fun r r' => r.1 = r'.1 ∧ List.Forall₂ (l.Linked package scope) r.2 r'.2) rows rows'

variable {package : String}

theorem RowsLinked.item? {scope : String} {rows rows' : List (Int × List FilePart)}
    (h : l.RowsLinked package scope rows rows') (number index : Int) :
    Option.Rel (l.Linked package scope) (FilePart.item? rows number index)
      (FilePart.item? rows' number index) := by
  induction h with
  | nil => exact .none
  | @cons r r' rest rest' hrow _ ih =>
      obtain ⟨hnumber, hitems⟩ := hrow
      rw [FilePart.item?, FilePart.item?, List.lookup_cons, List.lookup_cons, ← hnumber]
      cases number == r.1 with
      | false => exact ih
      | true =>
          simp only [Option.bind_some]
          by_cases hindex : 0 ≤ index
          · rw [if_pos hindex, if_pos hindex]
            exact rel_getElem?_of_forall₂ hitems index.toNat
          · rw [if_neg hindex, if_neg hindex]
            exact .none

/-- What stands in a row is linked as the elements there are. -/
theorem RowsLinked.place? {scope : String} {rows rows' : List (Int × List FilePart)}
    (h : l.RowsLinked package scope rows rows') (number index : Int) (rest : List Int) :
    l.PlaceLinked package
      ((FilePart.item? rows number index).bind fun q => q.place? scope rest)
      ((FilePart.item? rows' number index).bind fun q => q.place? scope rest) := by
  have hitem := h.item? number index
  generalize FilePart.item? rows number index = q at hitem
  generalize FilePart.item? rows' number index = q' at hitem
  cases hitem with
  | none => exact .none
  | some hlinked => exact hlinked rest

theorem linked_part {scope : String} {p p' : FilePart}
    (hown : l.symbols.PartLinked l.visible package scope p p') (hinner : p'.inner scope = p.inner scope)
    (hrows : l.RowsLinked package (p.inner scope) p.rows p'.rows) : l.Linked package scope p p' := by
  intro path
  cases path with
  | nil => exact .some ⟨rfl, hown⟩
  | cons number path =>
      cases path with
      | nil => exact .none
      | cons index rest =>
          rw [FilePart.place?, FilePart.place?, hinner]
          exact hrows.place? number index rest

theorem linked_leaf {scope : String} {p p' : FilePart}
    (hown : l.symbols.PartLinked l.visible package scope p p') (hinner : p'.inner scope = p.inner scope)
    (hrows : p.rows = []) (hrows' : p'.rows = []) : l.Linked package scope p p' := by
  refine linked_part hown hinner ?_
  rw [hrows, hrows']
  exact .nil

/-- The items of a list are linked as each of them is. -/
theorem each_linked {α : Type} {scope : String} {part : α → FilePart}
    {link : α → Except LinkError (α × List String)}
    (hlink : ∀ a a' used, link a = .ok (a', used) → l.Linked package scope (part a) (part a'))
    {items items' : List α} {used : List String} (h : each link items = .ok (items', used)) :
    List.Forall₂ (l.Linked package scope) (items.map part) (items'.map part) := by
  rw [List.forall₂_map_left_iff, List.forall₂_map_right_iff]
  exact each_forall₂ hlink h

theorem fields_linked {scope : String} {fs fs' : List FieldDescriptor} {used : List String}
    (h : each (l.field scope) fs = .ok (fs', used)) :
    List.Forall₂ (l.Linked package scope) (fs.map .field) (fs'.map .field) := by
  refine each_linked (fun f f' used hf => ?_) h
  have hlinked := field_linked hf
  exact linked_leaf (.field hlinked) (congrArg (qualify scope) hlinked.nameText) rfl rfl

theorem extensions_linked {scope : String} {fs fs' : List FieldDescriptor} {used : List String}
    (h : each (l.extensionField scope) fs = .ok (fs', used)) :
    List.Forall₂ (l.Linked package scope) (fs.map .extension) (fs'.map .extension) := by
  refine each_linked (fun f f' used hf => ?_) h
  have hlinked := extensionField_linked hf
  exact linked_leaf (.extension hlinked) (congrArg (qualify scope) hlinked.field.nameText) rfl rfl

/-- Elements that linking leaves as they are. -/
theorem kept_linked {α : Type} {scope : String} {part : α → FilePart}
    {link : α → Except LinkError (α × List String)}
    (hlink : ∀ a a' used, link a = .ok (a', used) → l.Linked package scope (part a) (part a))
    {items items' : List α} {used : List String} (h : each link items = .ok (items', used)) :
    List.Forall₂ (l.Linked package scope) (items.map part) (items.map part) := by
  rw [List.forall₂_map_left_iff, List.forall₂_map_right_iff]
  have hall : List.Forall₂ (fun a _ => l.Linked package scope (part a) (part a)) items items' :=
    each_forall₂ hlink h
  refine List.forall₂_same.mpr fun a ha => ?_
  obtain ⟨i, hi⟩ := List.getElem?_of_mem ha
  obtain ⟨a', -, hlinked⟩ := exists_getElem?_of_forall₂ hall.flip hi
  exact hlinked

theorem oneofs_linked {scope : String} {os os' : List OneofDescriptor} {used : List String}
    (h : each (l.oneof scope) os = .ok (os', used)) :
    List.Forall₂ (l.Linked package scope) (os.map .oneof) (os.map .oneof) := by
  refine kept_linked (fun o o' used ho => ?_) h
  obtain ⟨first, hoptions, -⟩ := bind_eq_ok ho
  exact linked_leaf (.oneof (options_linked (encloses_qualify scope o.nameText) hoptions)) rfl rfl rfl

theorem enum_linked {scope : String} {e e' : EnumDescriptor} {used : List String}
    (h : l.enum scope e = .ok (e', used)) : l.Linked package scope (.enum e) (.enum e) := by
  obtain ⟨first, hoptions, h⟩ := bind_eq_ok h
  obtain ⟨⟨values, others⟩, hvalues, -⟩ := bind_eq_ok h
  refine linked_part (.enum (options_linked (encloses_qualify scope e.nameText) hoptions)) rfl
    (.cons ⟨rfl, kept_linked (fun v v' used hv => ?_) hvalues⟩ .nil)
  -- The options of a value are looked for inside the enum, beside which the value stands.
  obtain ⟨first, hoptions, -⟩ := bind_eq_ok hv
  have hscope : Encloses scope (qualify (qualify scope e.nameText) v.nameText) :=
    (encloses_qualify scope e.nameText).qualify v.nameText
  exact linked_leaf (.enumValue (options_linked hscope hoptions)) rfl rfl rfl

theorem enums_linked {scope : String} {es es' : List EnumDescriptor} {used : List String}
    (h : each (l.enum scope) es = .ok (es', used)) :
    List.Forall₂ (l.Linked package scope) (es.map .enum) (es.map .enum) :=
  kept_linked (fun _ _ _ he => enum_linked he) h

mutual

theorem message_linked (scope : String) : (m : MessageDescriptor) → {m' : MessageDescriptor} →
    {used : List String} → l.message scope m = .ok (m', used) →
    l.Linked package scope (.message m) (.message m')
  | { name, fields, nested, enums, extensionRanges, extensions, options, oneofs, reservedRanges,
      reservedNames }, m', used, h => by
      rw [message] at h
      obtain ⟨used₁, hoptions, h⟩ := bind_eq_ok h
      obtain ⟨⟨fields', used₂⟩, hfields, h⟩ := bind_eq_ok h
      obtain ⟨⟨oneofs', used₃⟩, honeofs, h⟩ := bind_eq_ok h
      obtain ⟨⟨nested', used₄⟩, hnested, h⟩ := bind_eq_ok h
      obtain ⟨⟨enums', used₅⟩, henums, h⟩ := bind_eq_ok h
      obtain ⟨⟨extensions', used₆⟩, hextensions, h⟩ := bind_eq_ok h
      cases h
      exact linked_part (.message rfl rfl (options_linked (encloses_qualify _ _) hoptions)) rfl <|
        .cons ⟨rfl, fields_linked hfields⟩ <| .cons ⟨rfl, oneofs_linked honeofs⟩ <|
        .cons ⟨rfl, messages_linked (qualify scope (name.getD "")) nested hnested⟩ <|
        .cons ⟨rfl, enums_linked henums⟩ <| .cons ⟨rfl, extensions_linked hextensions⟩ .nil

theorem messages_linked (scope : String) : (ms : List MessageDescriptor) →
    {ms' : List MessageDescriptor} → {used : List String} → l.messages scope ms = .ok (ms', used) →
    List.Forall₂ (l.Linked package scope) (ms.map .message) (ms'.map .message)
  | [], ms', used, h => by
      cases h
      exact .nil
  | m :: rest, ms', used, h => by
      rw [messages] at h
      obtain ⟨⟨m', first⟩, hm, h⟩ := bind_eq_ok h
      obtain ⟨⟨rest', others⟩, hrest, h⟩ := bind_eq_ok h
      cases h
      exact .cons (message_linked scope m hm) (messages_linked scope rest hrest)

end

theorem service_linked {scope : String} {t t' : ServiceDescriptor} {used : List String}
    (h : l.service scope t = .ok (t', used)) : l.Linked scope scope (.service t) (.service t') := by
  obtain ⟨first, hoptions, h⟩ := bind_eq_ok h
  obtain ⟨⟨methods, others⟩, hmethods, h⟩ := bind_eq_ok h
  cases h
  refine linked_part (.service rfl rfl (options_linked (encloses_qualify scope t.nameText) hoptions))
    rfl (.cons ⟨rfl, each_linked (fun m m' used hm => ?_) hmethods⟩ .nil)
  have hlinked := method_linked hm
  exact linked_leaf (.method hlinked) (congrArg (qualify _) hlinked.nameText) rfl rfl

theorem services_linked {scope : String} {ts ts' : List ServiceDescriptor} {used : List String}
    (h : each (l.service scope) ts = .ok (ts', used)) :
    List.Forall₂ (l.Linked scope scope) (ts.map .service) (ts'.map .service) := by
  refine each_linked (fun t t' used ht => ?_) h
  exact service_linked ht

theorem fileParts_linked {f f' : FileDescriptor} {used : List String}
    (h : l.fileParts f = .ok (f', used)) :
    f'.options = f.options ∧ l.symbols.OptionsLinked l.visible f.packageText .file f.options ∧
      ∀ path, l.PlaceLinked f.packageText (f.place? path) (f'.place? path) := by
  obtain ⟨used₁, hoptions, h⟩ := bind_eq_ok h
  obtain ⟨⟨messages', used₂⟩, hmessages, h⟩ := bind_eq_ok h
  obtain ⟨⟨enums', used₃⟩, henums, h⟩ := bind_eq_ok h
  obtain ⟨⟨extensions', used₄⟩, hextensions, h⟩ := bind_eq_ok h
  obtain ⟨⟨services', used₅⟩, hservices, h⟩ := bind_eq_ok h
  cases h
  have hrows : l.RowsLinked f.packageText f.packageText f.rows
      { f with messages := messages', extensions := extensions', services := services' }.rows :=
    .cons ⟨rfl, messages_linked f.packageText f.messages hmessages⟩ <|
      .cons ⟨rfl, enums_linked henums⟩ <| .cons ⟨rfl, extensions_linked hextensions⟩ <|
      .cons ⟨rfl, services_linked hservices⟩ .nil
  refine ⟨rfl, options_linked (Or.inr (Or.inl rfl)) hoptions, fun path => ?_⟩
  cases path with
  | nil => exact .none
  | cons number path =>
      cases path with
      | nil => exact .none
      | cons index rest => exact hrows.place? number index rest

end Linker

namespace Symbols

theorem ok_of_toOption {ε α : Type} {x : Except ε α} {a : α} (h : x.toOption = some a) :
    x = .ok a := by
  cases x with
  | error e => cases h
  | ok b => exact congrArg Except.ok (Option.some.inj h)

/-- In a linked file every dependency is imported, and at every place stands the element that stood there
before, with its types and options linked. -/
theorem link_sound {s : Symbols} {f : FileDescriptor} {linked : LinkedFile}
    (h : s.link f = .ok linked) :
    (∀ d ∈ f.dependencies, s.containsFile d = true) ∧
    linked.descriptor.options = f.options ∧
    s.OptionsLinked (f.nameText :: f.dependencies) f.packageText .file f.options ∧
    ∀ path, Option.Rel (fun place place' => place.1 = place'.1 ∧
        s.PartLinked (f.nameText :: f.dependencies) f.packageText place.1 place.2 place'.2)
      (f.place? path) (linked.descriptor.place? path) := by
  rw [link] at h
  split at h
  · cases h
  · rename_i hdependencies
    obtain ⟨⟨descriptor, used⟩, hparts, h⟩ := bind_eq_ok h
    cases h
    refine ⟨fun d hd => ?_, Linker.fileParts_linked hparts⟩
    have hnot := List.find?_eq_none.mp hdependencies d hd
    simpa using hnot

/-- A file whose inner and outer messages share a name, with an option of its own. -/
def chest : FileDescriptor :=
  { name := some "a.proto", package := some "a.v1"
    dependencies := ["google/protobuf/descriptor.proto"]
    messages :=
      [{ name := some "Chest"
         fields :=
          [{ name := some "lid", typeName := some "Lid"
             options := some { uninterpreted := [{ name := [⟨"note", true⟩] }] } },
           { name := some "size", typeName := some "v1.Size" }]
         nested := [{ name := some "Lid" }] },
       { name := some "Lid" }]
    enums := [{ name := some "Size" }]
    extensions :=
      [{ name := some "note", type := some 9, extendee := some "google.protobuf.FieldOptions" }]
    services :=
      [{ name := some "Chests"
         methods := [{ name := some "Open", inputType := some "Chest", outputType := some "Lid" }] }] }

/-- The file that declares the options of fields. -/
def fieldOptions : FileDescriptor :=
  { name := some "google/protobuf/descriptor.proto", package := some "google.protobuf"
    messages := [{ name := some "FieldOptions" }] }

/-- The names of types in the messages and the services of a file, with the types of the fields. -/
def typeNames (f : FileDescriptor) : List (Option String) × List (Option Int) :=
  let fields := f.messages.flatMap MessageDescriptor.fields
  let methods := f.services.flatMap ServiceDescriptor.methods
  (fields.map FieldDescriptor.typeName ++ methods.flatMap fun m => [m.inputType, m.outputType],
    fields.map FieldDescriptor.type)

theorem link_sound_chest : ∃ (s : Symbols) (linked : LinkedFile),
    [fieldOptions, chest].foldlM importFile {} = .ok s ∧ s.link chest = .ok linked ∧
    typeNames linked.descriptor =
      ([some ".a.v1.Chest.Lid", some ".a.v1.Size", some ".a.v1.Chest", some ".a.v1.Lid"],
        [some FieldType.message, some FieldType.enum]) ∧
    (∀ d ∈ chest.dependencies, s.containsFile d = true) ∧
    linked.descriptor.options = chest.options ∧
    s.OptionsLinked (chest.nameText :: chest.dependencies) chest.packageText .file chest.options ∧
    ∀ path, Option.Rel (fun place place' => place.1 = place'.1 ∧
        s.PartLinked (chest.nameText :: chest.dependencies) chest.packageText place.1 place.2 place'.2)
      (chest.place? path) (linked.descriptor.place? path) := by
  have hview : (([fieldOptions, chest].foldlM importFile {}).toOption.bind fun s =>
      (s.link chest).toOption.map fun linked => typeNames linked.descriptor) =
      some ([some ".a.v1.Chest.Lid", some ".a.v1.Size", some ".a.v1.Chest", some ".a.v1.Lid"],
        [some FieldType.message, some FieldType.enum]) := by
    decide +kernel
  obtain ⟨s, hs, hview⟩ := Option.bind_eq_some_iff.mp hview
  obtain ⟨linked, hlinked, hnames⟩ := Option.map_eq_some_iff.mp hview
  have hlink := ok_of_toOption hlinked
  exact ⟨s, linked, ok_of_toOption hs, hlink, hnames, link_sound hlink⟩

/-- A field that is no extension and yet says what it extends. -/
def strayExtendee : FileDescriptor :=
  { name := some "a.proto", package := some "a"
    messages :=
      [{ name := some "M"
         fields := [{ name := some "f", number := some 1, type := some 5, extendee := some "Nope" }] }] }

/-- Only the extendees of extensions are linked. -/
theorem link_keeps_strayExtendee : ∃ (linked : LinkedFile) (f : FieldDescriptor),
    ({} : Symbols).link strayExtendee = .ok linked ∧
    linked.descriptor.part? [4, 0, 2, 0] = some (.field f) ∧ f.extendee = some "Nope" ∧
    Text.startsWith "." "Nope" = false ∧ ({} : Symbols).lookup "Nope" = none := by
  refine ⟨_, _, rfl, rfl, rfl, ?_, ?_⟩ <;> decide

end Symbols
end Schematic
