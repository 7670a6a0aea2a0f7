import Schematic.Proofs.Descriptor.Places
import Schematic.Proofs.Link.Sound

/-!
# Imports that nothing needs

While a file is linked, every name that it uses notes the file in which it is found.  The notes are
those of its uses, one after the other, and the uses are those of its elements, wherever they
stand.  So an import is left over exactly when no element names anything that is declared there.
-/

namespace Schematic

/-! ## A name stands for one thing -/

theorem Encloses.exists_append {outer scope : String} (h : Encloses outer scope) :
    ∃ rest, outer ++ rest = scope := by
  rcases h with rfl | rfl | ⟨rest, rfl⟩
  · exact ⟨scope, String.empty_append⟩
  · exact ⟨"", String.append_empty⟩
  · exact ⟨"." ++ rest, String.append_assoc.symm⟩

theorem Encloses.eq_of_length {a b scope : String} (ha : Encloses a scope) (hb : Encloses b scope)
    (h : a.length = b.length) : a = b := by
  obtain ⟨rest, rfl⟩ := ha.exists_append
  obtain ⟨rest', heq⟩ := hb.exists_append
  rw [← String.toList_inj, String.toList_append, String.toList_append] at heq
  rw [← String.length_toList, ← String.length_toList] at h
  exact String.toList_inj.mp (List.append_inj_left heq h.symm).symm

theorem Symbols.StandsFor.unique {s : Symbols} {accept : Symbol → Bool}
    {scope name full full' : String} {symbol symbol' : Symbol}
    (h : s.StandsFor accept scope name full symbol)
    (h' : s.StandsFor accept scope name full' symbol') : full = full' ∧ symbol = symbol' := by
  have hdotted : ∀ text : String, Text.startsWith "." ("." ++ text) = true :=
    fun text => Text.startsWith_iff.mpr ⟨text, rfl⟩
  have hfull : full = full' := by
    cases h with
    | absolute _ _ =>
        generalize hname : "." ++ full = name at h'
        cases h' with
        | absolute _ _ => exact (String.append_right_inj ".").mp hname
        | relative dotless _ _ _ _ =>
            rw [← hname, hdotted] at dotless
            cases dotless
    | @relative _ outer _ dotless encloses found accepted innermost =>
        cases h' with
        | absolute _ _ =>
            rw [hdotted] at dotless
            cases dotless
        | @relative _ outer' _ _ encloses' found' accepted' innermost' =>
            -- Neither of the two scopes is inside the other.
            have hle : outer'.length ≤ outer.length := Nat.le_of_not_lt fun hlt => by
              rw [innermost _ encloses' hlt _ found'] at accepted'
              cases accepted'
            have hge : outer.length ≤ outer'.length := Nat.le_of_not_lt fun hlt => by
              rw [innermost' _ encloses hlt _ found] at accepted
              cases accepted
            rw [encloses.eq_of_length encloses' (Nat.le_antisymm hge hle)]
  subst hfull
  exact ⟨rfl, Option.some.inj (h.lookup.1.symm.trans h'.lookup.1)⟩

theorem Linker.find_eq_some_iff {l : Linker} {accept : Symbol → Bool} {scope name full : String}
    {symbol : Symbol} :
    l.find accept scope name = some (full, symbol) ↔
      l.symbols.StandsFor accept scope name full symbol := by
  refine ⟨standsFor_of_find, fun h => ?_⟩
  obtain ⟨⟨full', symbol'⟩, hfind⟩ : ∃ target, l.find accept scope name = some target := by
    rw [← Option.isSome_iff_exists, find_eq, List.findSome?_isSome_iff]
    obtain ⟨hlookup, haccept⟩ := h.lookup
    refine ⟨full, ?_, by rw [hlookup, Option.filter_some, if_pos haccept]; rfl⟩
    rw [candidates]
    cases h with
    | absolute _ _ =>
        rw [Text.withoutStart?_dot]
        exact List.mem_singleton_self _
    | relative dotless encloses _ _ _ =>
        rw [Text.withoutStart?_eq_none dotless]
        exact List.mem_map_of_mem (mem_scopes.mpr encloses)
  obtain ⟨rfl, rfl⟩ := h.unique (standsFor_of_find hfind)
  exact hfind

namespace Symbols

/-- What is used is this symbol. -/
def Means (s : Symbols) (u : Use) (symbol : Symbol) : Prop :=
  match u with
  | .fieldType scope _ typeName => ∃ name full, typeName = some name ∧
      s.StandsFor (fun symbol => symbol.kind.isType) scope name full symbol
  | .message scope name => ∃ full,
      s.StandsFor (fun symbol => symbol.kind.isType) scope name full symbol
  | .option element _ name => ∃ full,
      s.StandsFor (fun symbol => symbol.kind = .extension) element name full symbol

theorem means_iff {s : Symbols} {u : Use} {symbol : Symbol} :
    s.Means u symbol ↔ ∃ full, s.target? u = some (full, symbol) := by
  have hfind : ∀ {accept : Symbol → Bool} {scope name full : String},
      s.find accept scope name = some (full, symbol) ↔
        s.StandsFor accept scope name full symbol := Linker.find_eq_some_iff
  cases u with
  | fieldType scope type typeName =>
      cases typeName with
      | none => simp [Means, target?]
      | some name => simp [Means, target?, hfind]
  | message scope name => simp only [Means, target?, hfind]
  | option element level name => simp only [Means, target?, hfind]

theorem fileOf?_eq_some_iff {s : Symbols} {u : Use} {file : String} :
    s.fileOf? u = some file ↔ ∃ symbol, s.Means u symbol ∧ symbol.file = file := by
  rw [fileOf?, Option.map_eq_some_iff]
  constructor
  · rintro ⟨⟨full, symbol⟩, htarget, rfl⟩
    exact ⟨symbol, means_iff.mpr ⟨full, htarget⟩, rfl⟩
  · rintro ⟨symbol, hmeans, rfl⟩
    obtain ⟨full, htarget⟩ := means_iff.mp hmeans
    exact ⟨(full, symbol), htarget, rfl⟩

end Symbols

/-! ## Uses by their places -/

namespace FilePart

/-- What an element uses itself, without what stands in it.  The options of the values of an enum
are looked for inside the enum and count as its own. -/
def ownUses (package scope : String) : FilePart → List Use
  | .message m => Options.uses (qualify scope m.nameText) .message m.options
  | .field f => f.uses scope
  | .oneof o => o.uses scope
  | .enum e => e.uses scope
  | .enumValue _ => []
  | .service t => Options.uses (qualify scope t.nameText) .service t.options
  | .method m => m.uses package scope
  | .extension f => f.extensionUses scope

/-- What an element and all that stands in it use. -/
def uses (package scope : String) : FilePart → List Use
  | .message m => m.uses scope
  | .service t => Options.uses (qualify scope t.nameText) .service t.options ++
      t.methods.flatMap (MethodDescriptor.uses package (qualify scope t.nameText))
  | p => p.ownUses package scope

variable {package scope : String} {u : Use}

/-- An element uses what is its own and what is used in its rows. -/
theorem mem_uses_iff {p : FilePart} :
    u ∈ p.uses package scope ↔ u ∈ p.ownUses package scope ∨
      ∃ r ∈ p.rows, ∃ q ∈ r.2, u ∈ q.uses package (p.inner scope) := by
  cases p with
  | message m =>
      obtain ⟨name, fields, nested, enums, extensionRanges, extensions, options, oneofs,
        reservedRanges, reservedNames⟩ := m
      simp [uses, ownUses, rows, inner, nameText, MessageDescriptor.nameText,
        MessageDescriptor.uses, MessageDescriptor.usesList_eq]
  | service t => simp [uses, ownUses, rows, inner, nameText]
  | _ => simp [uses, ownUses, rows]

/-- What is used at a place in or below an element. -/
def UsedAt (package scope : String) (p : FilePart) (u : Use) : Prop :=
  ∃ path scope' q, p.place? scope path = some (scope', q) ∧ u ∈ q.ownUses package scope'

theorem UsedAt.own {p : FilePart} (h : u ∈ p.ownUses package scope) : UsedAt package scope p u :=
  ⟨[], scope, p, rfl, h⟩

theorem exists_item? {rows : List (Int × List FilePart)} (hnumbers : (rows.map Prod.fst).Nodup)
    {r : Int × List FilePart} (hr : r ∈ rows) {q : FilePart} (hq : q ∈ r.2) :
    ∃ index, item? rows r.1 index = some q := by
  obtain ⟨i, hi⟩ := List.getElem?_of_mem hq
  exact ⟨i, item?_eq_some (ListRows.mem.lookup_of_mem hnumbers hr) hi⟩

theorem mem_row_of_item? {rows : List (Int × List FilePart)} {number index : Int} {q : FilePart}
    (h : item? rows number index = some q) : ∃ r ∈ rows, q ∈ r.2 := by
  obtain ⟨row, hrow, i, -, hq⟩ := item?_eq_some_iff.mp h
  exact ⟨(number, row), ListRows.mem.mem_of_lookup hrow, List.mem_of_getElem? hq⟩

/-- What is used below an item of a row is used below the element. -/
theorem UsedAt.of_row {p q : FilePart} {r : Int × List FilePart} (hr : r ∈ p.rows) (hq : q ∈ r.2)
    (h : UsedAt package (p.inner scope) q u) : UsedAt package scope p u := by
  obtain ⟨index, hitem⟩ := exists_item? p.nodup_rows hr hq
  obtain ⟨path, scope', q', hplace, hu⟩ := h
  refine ⟨r.1 :: index :: path, scope', q', ?_, hu⟩
  rw [place?, hitem, Option.bind_some, hplace]

theorem UsedAt.mem_uses {p : FilePart} (h : UsedAt package scope p u) :
    u ∈ p.uses package scope := by
  obtain ⟨path, scope', q, hplace, hu⟩ := h
  fun_induction place? scope p path with
  | case1 scope p =>
      cases hplace
      exact mem_uses_iff.mpr (Or.inl hu)
  | case2 => cases hplace
  | case3 scope p number index rest ih =>
      obtain ⟨item, hitem, hplace⟩ := Option.bind_eq_some_iff.mp hplace
      obtain ⟨r, hr, hmem⟩ := mem_row_of_item? hitem
      exact mem_uses_iff.mpr (Or.inr ⟨r, hr, item, hmem, ih item hplace⟩)

mutual

theorem usedAt_message {scope : String} : (m : MessageDescriptor) → u ∈ m.uses scope →
    UsedAt package scope (.message m) u
  | { name, fields, nested, enums, extensionRanges, extensions, options, oneofs, reservedRanges,
      reservedNames }, h => by
      simp only [MessageDescriptor.uses, List.mem_append, List.mem_flatMap] at h
      rcases h with ((((h | ⟨f, hf, h⟩) | ⟨o, ho, h⟩) | h) | ⟨e, he, h⟩) | ⟨f, hf, h⟩
      · exact .own h
      · exact .of_row (r := (2, fields.map .field)) (by simp [rows]) (List.mem_map_of_mem hf) (.own h)
      · exact .of_row (r := (8, oneofs.map .oneof)) (by simp [rows]) (List.mem_map_of_mem ho) (.own h)
      · obtain ⟨m, hm, hused⟩ := usedAt_messages nested h
        exact .of_row (r := (3, nested.map .message)) (by simp [rows]) (List.mem_map_of_mem hm) hused
      · exact .of_row (r := (4, enums.map .enum)) (by simp [rows]) (List.mem_map_of_mem he) (.own h)
      · exact .of_row (r := (6, extensions.map .extension)) (by simp [rows])
          (List.mem_map_of_mem hf) (.own h)

theorem usedAt_messages {scope : String} : (ms : List MessageDescriptor) →
    u ∈ MessageDescriptor.usesList scope ms → ∃ m ∈ ms, UsedAt package scope (.message m) u
  | [], h => by
      rw [MessageDescriptor.usesList] at h
      cases h
  | m :: rest, h => by
      rw [MessageDescriptor.usesList, List.mem_append] at h
      rcases h with h | h
      · exact ⟨m, List.mem_cons_self, usedAt_message m h⟩
      · obtain ⟨m', hm', hused⟩ := usedAt_messages rest h
        exact ⟨m', List.mem_cons_of_mem m hm', hused⟩

end

/-- Whatever an element uses is used at some place in it. -/
theorem usedAt_of_mem_uses {p : FilePart} (h : u ∈ p.uses package scope) :
    UsedAt package scope p u := by
  cases p with
  | message m => exact usedAt_message m h
  | service t =>
      rw [uses, List.mem_append, List.mem_flatMap] at h
      rcases h with h | ⟨m, hm, h⟩
      · exact .own h
      · exact .of_row (r := (2, t.methods.map .method)) (by simp [rows]) (List.mem_map_of_mem hm)
          (.own h)
  | _ => exact .own h

end FilePart

/-- A file uses what its own options use and what its elements use, at all their places. -/
theorem FileDescriptor.mem_uses_iff {f : FileDescriptor} {u : Use} :
    u ∈ f.uses ↔ u ∈ Options.uses f.packageText .file f.options ∨
      ∃ path scope p, f.place? path = some (scope, p) ∧ u ∈ p.ownUses f.packageText scope := by
  have hrows : u ∈ f.uses ↔ u ∈ Options.uses f.packageText .file f.options ∨
      ∃ r ∈ f.rows, ∃ p ∈ r.2, u ∈ p.uses f.packageText f.packageText := by
    simp [uses, rows, FilePart.uses, FilePart.ownUses, MessageDescriptor.usesList_eq,
      ServiceDescriptor.uses]
  rw [hrows]
  refine or_congr_right ⟨?_, ?_⟩
  · rintro ⟨r, hr, p, hp, hu⟩
    have hnumbers : (f.rows.map Prod.fst).Nodup := by simp [rows]
    obtain ⟨index, hitem⟩ := FilePart.exists_item? hnumbers hr hp
    obtain ⟨path, scope, q, hplace, hu⟩ := FilePart.usedAt_of_mem_uses hu
    refine ⟨r.1 :: index :: path, scope, q, ?_, hu⟩
    rw [place?, hitem, Option.bind_some, hplace]
  · rintro ⟨path, scope, q, hplace, hu⟩
    cases path with
    | nil => cases hplace
    | cons number path =>
        cases path with
        | nil => cases hplace
        | cons index rest =>
            obtain ⟨p, hitem, hplace⟩ := Option.bind_eq_some_iff.mp hplace
            obtain ⟨r, hr, hp⟩ := FilePart.mem_row_of_item? hitem
            exact ⟨r, hr, p, hp, FilePart.UsedAt.mem_uses ⟨rest, scope, q, hplace, hu⟩⟩

/-! ## What linking notes -/

namespace Linker

variable {l : Linker} {scope : String} {used : List String}

theorem needed_used {u : Use} {full element name : String} {symbol : Symbol}
    (htarget : l.symbols.target? u = some (full, symbol))
    (h : l.needed element name symbol = .ok used) : used = l.imports u := by
  rw [imports, Symbols.fileOf?, htarget, Option.map_some]
  unfold needed at h
  split at h
  · rename_i hown
    cases h
    rw [Option.filter_some_neg (by simpa using hown)]
    rfl
  · rename_i hown
    split at h
    · cases h
      rw [Option.filter_some_pos (by simpa using hown)]
      rfl
    · cases h

theorem type_used {u : Use} {element name full : String} {kind : SymbolKind}
    (htarget : l.symbols.target? u = l.find (fun s => s.kind.isType) scope name)
    (h : l.type element scope name = .ok (full, kind, used)) : used = l.imports u := by
  rw [type] at h
  split at h
  · cases h
  · rename_i hfind
    obtain ⟨used', hneeded, h⟩ := bind_eq_ok h
    cases h
    exact needed_used (htarget.trans hfind) hneeded

theorem messageType_used {element name linked : String}
    (h : l.messageType element scope name = .ok (linked, used)) :
    used = l.imports (.message scope name) := by
  obtain ⟨⟨full, kind, used'⟩, htype, h⟩ := bind_eq_ok h
  simp only at h
  split at h
  · cases h
    exact type_used rfl htype
  · cases h

theorem extension_used {element name : String} {level : OptionLevel}
    (h : l.extension element level name = .ok used) :
    used = l.imports (.option element level name) := by
  simp only [extension] at h
  split at h
  · cases h
  · rename_i hfind
    split at h
    · exact needed_used hfind h
    · cases h

theorem extensions_used {element : String} {level : OptionLevel} {names : List String}
    {all : List (List String)} (h : names.mapM (l.extension element level) = .ok all) :
    all.flatten = names.flatMap fun name => l.imports (.option element level name) := by
  induction names generalizing all with
  | nil =>
      cases h
      rfl
  | cons name rest ih =>
      rw [List.mapM_cons] at h
      obtain ⟨first, hfirst, h⟩ := bind_eq_ok h
      obtain ⟨others, hothers, h⟩ := bind_eq_ok h
      cases h
      rw [List.flatten_cons, List.flatMap_cons, ih hothers, extension_used hfirst]

theorem options_used {element : String} {level : OptionLevel} {o : Option Options}
    (h : l.options element level o = .ok used) :
    used = (Options.uses element level o).flatMap l.imports := by
  obtain ⟨all, hall, h⟩ := bind_eq_ok h
  cases h
  rw [Options.uses, List.flatMap_map]
  exact extensions_used hall

theorem each_used {α : Type} {link : α → Except LinkError (α × List String)} {uses : α → List Use}
    (hlink : ∀ a a' used, link a = .ok (a', used) → used = (uses a).flatMap l.imports)
    {items items' : List α} (h : each link items = .ok (items', used)) :
    used = (items.flatMap uses).flatMap l.imports := by
  induction items generalizing items' used with
  | nil =>
      cases h
      rfl
  | cons a rest ih =>
      obtain ⟨⟨a', first⟩, ha, h⟩ := bind_eq_ok h
      obtain ⟨⟨rest', others⟩, hrest, h⟩ := bind_eq_ok h
      cases h
      rw [List.flatMap_cons, List.flatMap_append, ← hlink a a' first ha, ← ih hrest]

theorem field_used (f f' : FieldDescriptor) (used : List String)
    (h : l.field scope f = .ok (f', used)) : used = (f.uses scope).flatMap l.imports := by
  obtain ⟨first, hoptions, h⟩ := bind_eq_ok h
  rw [FieldDescriptor.uses, List.flatMap_append, List.flatMap_singleton, ← options_used hoptions]
  cases hname : f.typeName with
  | none =>
      simp only [hname] at h
      split at h
      · cases h
      · cases h
        exact (List.append_nil _).symm
  | some name =>
      simp only [hname] at h
      obtain ⟨⟨full, kind, others⟩, htype, h⟩ := bind_eq_ok h
      simp only at h
      split at h
      · cases h
        rw [type_used rfl htype (u := .fieldType scope f.type (some name))]
      · cases h

theorem extensionField_used (f f' : FieldDescriptor) (used : List String)
    (h : l.extensionField scope f = .ok (f', used)) :
    used = (f.extensionUses scope).flatMap l.imports := by
  rw [FieldDescriptor.extensionUses, List.flatMap_append]
  cases hextendee : f.extendee with
  | none =>
      simp only [extensionField, hextendee] at h
      exact field_used f f' used h
  | some name =>
      simp only [extensionField, hextendee] at h
      obtain ⟨⟨extendee, first⟩, hmessage, h⟩ := bind_eq_ok h
      obtain ⟨⟨f'', others⟩, hfield, h⟩ := bind_eq_ok h
      cases h
      rw [messageType_used hmessage, field_used _ _ _ hfield, Option.map_some, Option.toList_some,
        List.flatMap_singleton]
      rfl

theorem oneof_used (o o' : OneofDescriptor) (used : List String)
    (h : l.oneof scope o = .ok (o', used)) : used = (o.uses scope).flatMap l.imports := by
  obtain ⟨first, hoptions, h⟩ := bind_eq_ok h
  cases h
  exact options_used hoptions

theorem enumValue_used (v v' : EnumValueDescriptor) (used : List String)
    (h : l.enumValue scope v = .ok (v', used)) : used = (v.uses scope).flatMap l.imports := by
  obtain ⟨first, hoptions, h⟩ := bind_eq_ok h
  cases h
  exact options_used hoptions

theorem enum_used (e e' : EnumDescriptor) (used : List String)
    (h : l.enum scope e = .ok (e', used)) : used = (e.uses scope).flatMap l.imports := by
  obtain ⟨first, hoptions, h⟩ := bind_eq_ok h
  obtain ⟨⟨values, others⟩, hvalues, h⟩ := bind_eq_ok h
  cases h
  rw [EnumDescriptor.uses, List.flatMap_append, ← options_used hoptions,
    ← each_used enumValue_used hvalues]

mutual

theorem message_used {scope : String} : (m : MessageDescriptor) → {m' : MessageDescriptor} →
    {used : List String} → l.message scope m = .ok (m', used) →
    used = (m.uses scope).flatMap l.imports
  | { name, fields, nested, enums, extensionRanges, extensions, options, oneofs, reservedRanges,
      reservedNames }, m', used, h => by
      rw [message] at h
      obtain ⟨used₁, hoptions, h⟩ := bind_eq_ok h
      obtain ⟨⟨fields', used₂⟩, hfields, h⟩ := bind_eq_ok h
      obtain ⟨⟨oneofs', used₃⟩, honeofs, h⟩ := bind_eq_ok h
      obtain ⟨⟨nested', used₄⟩, hnested, h⟩ := bind_eq_ok h
      obtain ⟨⟨enums', used₅⟩, henums, h⟩ := bind_eq_ok h
      obtain ⟨⟨extensions', used₆⟩, hextensions, h⟩ := bind_eq_ok h
      cases h
      simp only [MessageDescriptor.uses, List.flatMap_append]
      rw [← options_used hoptions, ← each_used field_used hfields, ← each_used oneof_used honeofs,
        ← messages_used nested hnested, ← each_used enum_used henums,
        ← each_used extensionField_used hextensions]

theorem messages_used {scope : String} : (ms : List MessageDescriptor) →
    {ms' : List MessageDescriptor} → {used : List String} → l.messages scope ms = .ok (ms', used) →
    used = (MessageDescriptor.usesList scope ms).flatMap l.imports
  | [], ms', used, h => by
      cases h
      rfl
  | m :: rest, ms', used, h => by
      rw [messages] at h
      obtain ⟨⟨m', first⟩, hm, h⟩ := bind_eq_ok h
      obtain ⟨⟨rest', others⟩, hrest, h⟩ := bind_eq_ok h
      cases h
      rw [MessageDescriptor.usesList, List.flatMap_append, ← message_used m hm,
        ← messages_used rest hrest]

end

theorem method_used {service : String} (m m' : MethodDescriptor) (used : List String)
    (h : l.method scope service m = .ok (m', used)) :
    used = (m.uses scope service).flatMap l.imports := by
  obtain ⟨first, hoptions, h⟩ := bind_eq_ok h
  obtain ⟨⟨input, second⟩, hinput, h⟩ := bind_eq_ok h
  obtain ⟨⟨output, third⟩, houtput, h⟩ := bind_eq_ok h
  cases h
  rw [MethodDescriptor.uses, List.flatMap_append, List.flatMap_cons, List.flatMap_singleton,
    ← options_used hoptions, ← messageType_used hinput, ← messageType_used houtput,
    List.append_assoc]

theorem service_used (t t' : ServiceDescriptor) (used : List String)
    (h : l.service scope t = .ok (t', used)) : used = (t.uses scope).flatMap l.imports := by
  obtain ⟨first, hoptions, h⟩ := bind_eq_ok h
  obtain ⟨⟨methods, others⟩, hmethods, h⟩ := bind_eq_ok h
  cases h
  rw [ServiceDescriptor.uses, List.flatMap_append, ← options_used hoptions,
    ← each_used method_used hmethods]

/-- What is noted in the end are the imports of all uses. -/
theorem fileParts_used {f f' : FileDescriptor} (h : l.fileParts f = .ok (f', used)) :
    used = f.uses.flatMap l.imports := by
  obtain ⟨used₁, hoptions, h⟩ := bind_eq_ok h
  obtain ⟨⟨messages', used₂⟩, hmessages, h⟩ := bind_eq_ok h
  obtain ⟨⟨enums', used₃⟩, henums, h⟩ := bind_eq_ok h
  obtain ⟨⟨extensions', used₄⟩, hextensions, h⟩ := bind_eq_ok h
  obtain ⟨⟨services', used₅⟩, hservices, h⟩ := bind_eq_ok h
  cases h
  simp only [FileDescriptor.uses, List.flatMap_append]
  rw [← options_used hoptions, ← messages_used _ hmessages, ← each_used enum_used henums,
    ← each_used extensionField_used hextensions, ← each_used service_used hservices]

end Linker

/-! ## Imports left over -/

namespace Symbols

/-- The file refers to a symbol: with an option of its own, or from an element at any depth. -/
def Refers (s : Symbols) (f : FileDescriptor) (symbol : Symbol) : Prop :=
  (∃ u ∈ Options.uses f.packageText .file f.options, s.Means u symbol) ∨
    ∃ path scope p, f.place? path = some (scope, p) ∧
      ∃ u ∈ p.ownUses f.packageText scope, s.Means u symbol

theorem refers_iff {s : Symbols} {f : FileDescriptor} {symbol : Symbol} :
    s.Refers f symbol ↔ ∃ u ∈ f.uses, s.Means u symbol := by
  constructor
  · rintro (⟨u, hu, hmeans⟩ | ⟨path, scope, p, hplace, u, hu, hmeans⟩)
    · exact ⟨u, FileDescriptor.mem_uses_iff.mpr (Or.inl hu), hmeans⟩
    · exact ⟨u, FileDescriptor.mem_uses_iff.mpr (Or.inr ⟨path, scope, p, hplace, hu⟩), hmeans⟩
  · rintro ⟨u, hu, hmeans⟩
    rcases FileDescriptor.mem_uses_iff.mp hu with hu | ⟨path, scope, p, hplace, hu⟩
    · exact Or.inl ⟨u, hu, hmeans⟩
    · exact Or.inr ⟨path, scope, p, hplace, u, hu, hmeans⟩

/-- The imports left over are those that the file has under its own name and those in which nothing
is declared that the file refers to.  They keep their order. -/
theorem link_unusedImports {s : Symbols} {f : FileDescriptor} {linked : LinkedFile}
    (h : s.link f = .ok linked) :
    ∃ idle : String → Bool, linked.unusedImports = f.dependencies.filter idle ∧
      ∀ d, idle d = true ↔ d = f.nameText ∨ ¬ ∃ symbol, s.Refers f symbol ∧ symbol.file = d := by
  rw [link] at h
  split at h
  · cases h
  · obtain ⟨⟨descriptor, used⟩, hparts, h⟩ := bind_eq_ok h
    cases h
    refine ⟨_, rfl, fun d => ?_⟩
    have hused : d ∈ used ↔ d ≠ f.nameText ∧ ∃ symbol, s.Refers f symbol ∧ symbol.file = d := by
      rw [Linker.fileParts_used hparts, List.mem_flatMap]
      simp only [Linker.mem_imports, fileOf?_eq_some_iff, refers_iff]
      constructor
      · rintro ⟨u, hu, hown, symbol, hmeans, hfile⟩
        exact ⟨hown, symbol, ⟨u, hu, hmeans⟩, hfile⟩
      · rintro ⟨hown, symbol, ⟨u, hu, hmeans⟩, hfile⟩
        exact ⟨u, hu, hown, symbol, hmeans, hfile⟩
    rw [Bool.not_eq_true', Bool.eq_false_iff, ne_eq, List.contains_iff_mem, hused, not_and_or,
      not_not]

/-- The files that `cellar` imports. -/
def cellarImports : List FileDescriptor :=
  [{ name := some "lid.proto", package := some "b", messages := [{ name := some "Lid" }] },
    { name := some "note.proto", package := some "c"
      extensions := [{ name := some "note", type := some 9
                       extendee := some "google.protobuf.EnumValueOptions" }] },
    { name := some "spare.proto", package := some "d", messages := [{ name := some "Spare" }] },
    { name := some "google/protobuf/descriptor.proto", package := some "google.protobuf"
      messages := [{ name := some "EnumValueOptions" }] }]

/-- A file that imports itself, and one file twice.  Two imports are needed deep inside. -/
def cellar : FileDescriptor :=
  { name := some "a.proto", package := some "a"
    dependencies := ["spare.proto", "lid.proto", "a.proto", "note.proto", "spare.proto"]
    messages :=
      [{ name := some "Cellar"
         fields := [{ name := some "chest", typeName := some "Chest" }]
         nested :=
          [{ name := some "Chest"
             fields := [{ name := some "lid", typeName := some "b.Lid" }]
             enums :=
              [{ name := some "Size"
                 values :=
                  [{ name := some "LARGE"
                     options := some { uninterpreted := [{ name := [⟨"c.note", true⟩] }] } }] }] }] }] }

theorem link_unusedImports_cellar : ∃ (s : Symbols) (linked : LinkedFile),
    (cellarImports ++ [cellar]).foldlM importFile {} = .ok s ∧ s.link cellar = .ok linked ∧
    linked.unusedImports = ["spare.proto", "a.proto", "spare.proto"] ∧
    ∃ idle : String → Bool, linked.unusedImports = cellar.dependencies.filter idle ∧
      ∀ d, idle d = true ↔
        d = cellar.nameText ∨ ¬ ∃ symbol, s.Refers cellar symbol ∧ symbol.file = d := by
  have hview : (((cellarImports ++ [cellar]).foldlM importFile {}).toOption.bind fun s =>
      (s.link cellar).toOption.map LinkedFile.unusedImports) =
      some ["spare.proto", "a.proto", "spare.proto"] := by
    decide +kernel
  obtain ⟨s, hs, hview⟩ := Option.bind_eq_some_iff.mp hview
  obtain ⟨linked, hlinked, hunused⟩ := Option.map_eq_some_iff.mp hview
  have hlink := ok_of_toOption hlinked
  exact ⟨s, linked, ok_of_toOption hs, hlink, hunused, link_unusedImports hlink⟩

end Symbols
end Schematic
