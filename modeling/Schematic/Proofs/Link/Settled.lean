import Schematic.Proofs.Link.Unused

/-!
# Linking a linked file

Linking writes names in full and the types of fields that have none.  All else in a file stays as it
is, and a name in full stands for what the name stood for before.  So a linked file is linked to
itself.
-/

namespace Schematic

/-! ## What linking leaves alone -/

/-- A field without its type. -/
def FieldDescriptor.outline (f : FieldDescriptor) : FieldDescriptor :=
  { f with type := none, typeName := none }

/-- An extension without its type and without what it extends. -/
def FieldDescriptor.extensionOutline (f : FieldDescriptor) : FieldDescriptor :=
  { f with type := none, typeName := none, extendee := none }

/-- A method without the messages that it takes and gives. -/
def MethodDescriptor.outline (m : MethodDescriptor) : MethodDescriptor :=
  { m with inputType := none, outputType := none }

mutual

/-- A message without the types of the fields and extensions in it, at any depth. -/
def MessageDescriptor.outline : MessageDescriptor → MessageDescriptor
  | { name, fields, nested, enums, extensionRanges, extensions, options, oneofs, reservedRanges,
      reservedNames } =>
    { name, fields := fields.map FieldDescriptor.outline
      nested := MessageDescriptor.outlines nested, enums, extensionRanges
      extensions := extensions.map FieldDescriptor.extensionOutline, options, oneofs, reservedRanges
      reservedNames }

def MessageDescriptor.outlines : List MessageDescriptor → List MessageDescriptor
  | [] => []
  | m :: rest => MessageDescriptor.outline m :: MessageDescriptor.outlines rest

end

def ServiceDescriptor.outline (s : ServiceDescriptor) : ServiceDescriptor :=
  { s with methods := s.methods.map MethodDescriptor.outline }

/-- A file without its references to types. -/
def FileDescriptor.outline (f : FileDescriptor) : FileDescriptor :=
  { f with
    messages := MessageDescriptor.outlines f.messages
    extensions := f.extensions.map FieldDescriptor.extensionOutline
    services := f.services.map ServiceDescriptor.outline }

namespace Linker

variable {l : Linker} {scope : String}

/-- What comes of linking has the outline it had before, and linking it again gives it back, with the
same imports needed. -/
def Settles {α : Type} (outline : α → α) (link : α → Except LinkError (α × List String)) : Prop :=
  ∀ a a' used, link a = .ok (a', used) → outline a' = outline a ∧ link a' = .ok (a', used)

theorem Settles.each {α : Type} {outline : α → α} {link : α → Except LinkError (α × List String)}
    (h : Settles outline link) : Settles (List.map outline) (each link) := by
  intro items
  induction items with
  | nil =>
      intro items' used hlink
      cases hlink
      exact ⟨rfl, rfl⟩
  | cons a rest ih =>
      intro items' used hlink
      obtain ⟨⟨a', first⟩, ha, hlink⟩ := bind_eq_ok hlink
      obtain ⟨⟨rest', others⟩, hrest, hlink⟩ := bind_eq_ok hlink
      cases hlink
      obtain ⟨hsame, hagain⟩ := h a a' first ha
      obtain ⟨hsames, hagains⟩ := ih rest' others hrest
      refine ⟨by rw [List.map_cons, hsame, hsames, List.map_cons], ?_⟩
      rw [Linker.each, hagain, hagains]
      rfl

/-! ## Names -/

/-- A name in full is found at once. -/
theorem type_in_full {element name full : String} {kind : SymbolKind} {used : List String}
    (h : l.type element scope name = .ok (full, kind, used)) :
    l.type element scope ("." ++ full) = .ok (full, kind, used) := by
  rw [type] at h
  split at h
  · cases h
  · rename_i found symbol hfind
    obtain ⟨others, hneeded, h⟩ := bind_eq_ok h
    cases h
    obtain ⟨hlookup, haccept⟩ := (standsFor_of_find hfind).lookup
    rw [type, find_eq_some_iff.mpr (.absolute hlookup haccept)]
    simp only [hneeded]
    rfl

theorem messageType_in_full {element name linked : String} {used : List String}
    (h : l.messageType element scope name = .ok (linked, used)) :
    l.messageType element scope linked = .ok (linked, used) := by
  obtain ⟨⟨full, kind, others⟩, htype, h⟩ := bind_eq_ok h
  simp only at h
  split at h
  · rename_i hkind
    cases h
    rw [messageType, type_in_full htype]
    simp only [Bind.bind, Except.bind, hkind, if_true]
    rfl
  · cases h

/-- The type that is written agrees again with what the type name stands for. -/
theorem agrees_written {kind : SymbolKind} {declared : Option Int}
    (h : agrees kind declared = true) :
    agrees kind (some (declared.getD (fieldType kind))) = true := by
  cases declared with
  | none => simp [agrees]
  | some type => exact h

/-! ## Elements -/

theorem field_settles : Settles FieldDescriptor.outline (l.field scope) := by
  intro f f' used h
  obtain ⟨first, hoptions, h⟩ := bind_eq_ok h
  cases hname : f.typeName with
  | none =>
      simp only [hname] at h
      split at h
      · cases h
      · rename_i htype
        cases h
        refine ⟨rfl, ?_⟩
        rw [field, hoptions]
        simp only [Bind.bind, Except.bind, hname, if_neg htype]
        rfl
  | some name =>
      simp only [hname] at h
      obtain ⟨⟨full, kind, others⟩, htype, h⟩ := bind_eq_ok h
      simp only at h
      split at h
      · rename_i hagrees
        cases h
        refine ⟨rfl, ?_⟩
        have hwritten := agrees_written hagrees
        have hfull := type_in_full htype
        rw [field]
        simp only [FieldDescriptor.nameText] at hoptions hfull ⊢
        rw [hoptions]
        simp only [Bind.bind, Except.bind, hfull, hwritten, if_true, Option.getD_some]
        rfl
      · cases h

theorem extensionField_settles :
    Settles FieldDescriptor.extensionOutline (l.extensionField scope) := by
  intro f f' used h
  cases hextendee : f.extendee with
  | none =>
      simp only [extensionField, hextendee] at h
      obtain ⟨hsame, hagain⟩ := field_settles f f' used h
      have hkept : f'.extendee = none := (congrArg FieldDescriptor.extendee hsame).trans hextendee
      refine ⟨congrArg (fun f => { f with extendee := none }) hsame, ?_⟩
      simp only [extensionField, hkept]
      exact hagain
  | some name =>
      simp only [extensionField, hextendee] at h
      obtain ⟨⟨extendee, first⟩, hmessage, h⟩ := bind_eq_ok h
      obtain ⟨⟨f'', others⟩, hfield, h⟩ := bind_eq_ok h
      cases h
      obtain ⟨hsame, hagain⟩ := field_settles _ _ _ hfield
      have hkept : f''.extendee = some extendee := congrArg FieldDescriptor.extendee hsame
      have hname : f''.name = f.name := (congrArg FieldDescriptor.name hsame :)
      have hwhole : { f'' with extendee := some extendee } = f'' := by rw [← hkept]
      refine ⟨congrArg (fun f => { f with extendee := none }) hsame, ?_⟩
      have hfull := messageType_in_full hmessage
      simp only [FieldDescriptor.nameText, ← hname] at hfull
      simp only [extensionField, hkept, FieldDescriptor.nameText, hfull, Bind.bind, Except.bind,
        hwhole, hagain]
      rfl

mutual

theorem message_settles {scope : String} : (m : MessageDescriptor) → {m' : MessageDescriptor} →
    {used : List String} → l.message scope m = .ok (m', used) →
    m'.outline = m.outline ∧ l.message scope m' = .ok (m', used)
  | { name, fields, nested, enums, extensionRanges, extensions, options, oneofs, reservedRanges,
      reservedNames }, m', used, h => by
      rw [message] at h
      obtain ⟨used₁, hoptions, h⟩ := bind_eq_ok h
      obtain ⟨⟨fields', used₂⟩, hfields, h⟩ := bind_eq_ok h
      obtain ⟨⟨oneofs', used₃⟩, honeofs, h⟩ := bind_eq_ok h
      obtain ⟨⟨nested', used₄⟩, hnested, h⟩ := bind_eq_ok h
      obtain ⟨⟨enums', used₅⟩, henums, h⟩ := bind_eq_ok h
      obtain ⟨⟨extensions', used₆⟩, hextensions, h⟩ := bind_eq_ok h
      cases h
      obtain ⟨hfields', hfields⟩ := field_settles.each _ _ _ hfields
      obtain ⟨hnested', hnested⟩ := messages_settle nested hnested
      obtain ⟨hextensions', hextensions⟩ := extensionField_settles.each _ _ _ hextensions
      constructor
      · simp only [MessageDescriptor.outline, hfields', hnested', hextensions']
      · rw [message, hoptions, hfields, honeofs, hnested, henums, hextensions]
        rfl

theorem messages_settle {scope : String} : (ms : List MessageDescriptor) →
    {ms' : List MessageDescriptor} → {used : List String} → l.messages scope ms = .ok (ms', used) →
    MessageDescriptor.outlines ms' = MessageDescriptor.outlines ms ∧
      l.messages scope ms' = .ok (ms', used)
  | [], ms', used, h => by
      cases h
      exact ⟨rfl, rfl⟩
  | m :: rest, ms', used, h => by
      rw [messages] at h
      obtain ⟨⟨m', first⟩, hm, h⟩ := bind_eq_ok h
      obtain ⟨⟨rest', others⟩, hrest, h⟩ := bind_eq_ok h
      cases h
      obtain ⟨hm', hm⟩ := message_settles m hm
      obtain ⟨hrest', hrest⟩ := messages_settle rest hrest
      refine ⟨by rw [MessageDescriptor.outlines, hm', hrest', MessageDescriptor.outlines], ?_⟩
      rw [messages, hm, hrest]
      rfl

end

theorem method_settles {service : String} :
    Settles MethodDescriptor.outline (l.method scope service) := by
  intro m m' used h
  obtain ⟨first, hoptions, h⟩ := bind_eq_ok h
  obtain ⟨⟨input, second⟩, hinput, h⟩ := bind_eq_ok h
  obtain ⟨⟨output, third⟩, houtput, h⟩ := bind_eq_ok h
  cases h
  refine ⟨rfl, ?_⟩
  have hinput := messageType_in_full hinput
  have houtput := messageType_in_full houtput
  rw [method]
  simp only [MethodDescriptor.nameText, Option.getD_some] at hoptions hinput houtput ⊢
  rw [hoptions, hinput, houtput]
  rfl

theorem service_settles : Settles ServiceDescriptor.outline (l.service scope) := by
  intro t t' used h
  obtain ⟨first, hoptions, h⟩ := bind_eq_ok h
  obtain ⟨⟨methods, others⟩, hmethods, h⟩ := bind_eq_ok h
  cases h
  obtain ⟨hmethods', hmethods⟩ := method_settles.each _ _ _ hmethods
  refine ⟨by simp only [ServiceDescriptor.outline, hmethods'], ?_⟩
  rw [service]
  simp only [ServiceDescriptor.nameText] at hoptions hmethods ⊢
  rw [hoptions, hmethods]
  rfl

theorem fileParts_settle {f f' : FileDescriptor} {used : List String}
    (h : l.fileParts f = .ok (f', used)) :
    f'.outline = f.outline ∧ l.fileParts f' = .ok (f', used) := by
  obtain ⟨used₁, hoptions, h⟩ := bind_eq_ok h
  obtain ⟨⟨messages', used₂⟩, hmessages, h⟩ := bind_eq_ok h
  obtain ⟨⟨enums', used₃⟩, henums, h⟩ := bind_eq_ok h
  obtain ⟨⟨extensions', used₄⟩, hextensions, h⟩ := bind_eq_ok h
  obtain ⟨⟨services', used₅⟩, hservices, h⟩ := bind_eq_ok h
  cases h
  obtain ⟨hmessages', hmessages⟩ := messages_settle f.messages hmessages
  obtain ⟨hextensions', hextensions⟩ := extensionField_settles.each _ _ _ hextensions
  obtain ⟨hservices', hservices⟩ := service_settles.each _ _ _ hservices
  constructor
  · simp only [FileDescriptor.outline, hmessages', hextensions', hservices']
  · rw [fileParts]
    simp only [FileDescriptor.packageText] at hoptions hmessages henums hextensions hservices ⊢
    rw [hoptions, hmessages, henums, hextensions, hservices]
    rfl

end Linker

namespace Symbols

/-- Linking changes nothing but references to types, and a linked file links to itself. -/
theorem link_idempotent {s : Symbols} {f : FileDescriptor} {linked : LinkedFile}
    (h : s.link f = .ok linked) :
    linked.descriptor.outline = f.outline ∧ s.link linked.descriptor = .ok linked := by
  rw [link] at h
  split at h
  · cases h
  · rename_i hdependencies
    obtain ⟨⟨descriptor, used⟩, hparts, h⟩ := bind_eq_ok h
    cases h
    obtain ⟨hsame, hagain⟩ := Linker.fileParts_settle hparts
    have hname : descriptor.name = f.name := (congrArg FileDescriptor.name hsame :)
    have himports : descriptor.dependencies = f.dependencies :=
      (congrArg FileDescriptor.dependencies hsame :)
    refine ⟨hsame, ?_⟩
    simp only [FileDescriptor.nameText] at hagain
    simp only [link, FileDescriptor.nameText, hname, himports, hdependencies, hagain, Bind.bind,
      Except.bind]
    rfl

/-- A file with names of every form: relative ones, some of them in inner scopes, and one with two
dots before it.  A field has no type, and another is a group. -/
def cabinet : FileDescriptor :=
  { name := some "a.proto", package := some "a.v1", dependencies := ["b.proto"]
    messages :=
      [{ name := some "Cabinet"
         fields :=
          [{ name := some "drawer", typeName := some "Drawer" },
           { name := some "shelf", type := some FieldType.group, typeName := some "b.Shelf" },
           { name := some "size", typeName := some "..a.v1.Size" }]
         nested :=
          [{ name := some "Drawer"
             extensions :=
              [{ name := some "label", type := some FieldType.string, extendee := some "Cabinet" }] }] },
       { name := some "Drawer" }]
    enums := [{ name := some "Size" }]
    services :=
      [{ name := some "Cabinets"
         methods := [{ name := some "Open", inputType := some "Cabinet.Drawer"
                       outputType := some "v1.Drawer" }] }] }

/-- The file that `cabinet` imports. -/
def shelves : FileDescriptor :=
  { name := some "b.proto", package := some "b", messages := [{ name := some "Shelf" }] }

/-- What the fields, the extensions one level down and the methods of a file refer to. -/
def references (f : FileDescriptor) : List (Option String) :=
  (f.messages.flatMap MessageDescriptor.fields).map FieldDescriptor.typeName ++
    ((f.messages.flatMap MessageDescriptor.nested).flatMap MessageDescriptor.extensions).map
      FieldDescriptor.extendee ++
    (f.services.flatMap ServiceDescriptor.methods).flatMap fun m => [m.inputType, m.outputType]

theorem link_idempotent_cabinet : ∃ (s : Symbols) (linked : LinkedFile),
    [shelves, cabinet].foldlM importFile {} = .ok s ∧ s.link cabinet = .ok linked ∧
    references linked.descriptor =
      [some ".a.v1.Cabinet.Drawer", some ".b.Shelf", some "..a.v1.Size", some ".a.v1.Cabinet",
        some ".a.v1.Cabinet.Drawer", some ".a.v1.Drawer"] ∧
    linked.descriptor.outline = cabinet.outline ∧ s.link linked.descriptor = .ok linked := by
  have hview : (([shelves, cabinet].foldlM importFile {}).toOption.bind fun s =>
      (s.link cabinet).toOption.map fun linked => references linked.descriptor) =
      some [some ".a.v1.Cabinet.Drawer", some ".b.Shelf", some "..a.v1.Size", some ".a.v1.Cabinet",
        some ".a.v1.Cabinet.Drawer", some ".a.v1.Drawer"] := by
    decide +kernel
  obtain ⟨s, hs, hview⟩ := Option.bind_eq_some_iff.mp hview
  obtain ⟨linked, hlinked, hreferences⟩ := Option.map_eq_some_iff.mp hview
  have hlink := ok_of_toOption hlinked
  exact ⟨s, linked, ok_of_toOption hs, hlink, hreferences, link_idempotent hlink⟩

end Symbols
end Schematic
