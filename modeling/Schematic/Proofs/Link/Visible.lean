import Schematic.Proofs.Link.Table
import Schematic.Proofs.Link.Uses

/-!
# What a file sees

All files share one table of symbols, and a name is looked for in the whole of it.  What is
found has to be declared in the file itself or in a file that it imports, so any other file
can only get in the way.  A table in which each use of a file finds again what it found in
another links the file to the same.  Where a use finds something else that the file does not see,
linking fails and names what was found.
-/

namespace Schematic

/-! ## Steps that succeed again -/

/-- Where `x` succeeds, `x'` succeeds with the same or fails for a reason in `E`. -/
def Again {α ε : Type} (E : ε → Prop) (x x' : Except ε α) : Prop :=
  ∀ a, x = .ok a → x' = .ok a ∨ ∃ e, E e ∧ x' = .error e

namespace Again

variable {α β ε : Type} {E : ε → Prop}

theorem refl (x : Except ε α) : Again E x x :=
  fun _ h => Or.inl h

theorem bind {x x' : Except ε α} {f f' : α → Except ε β} (hx : Again E x x')
    (hf : ∀ a, Again E (f a) (f' a)) : Again E (x >>= f) (x' >>= f') := by
  intro b h
  obtain ⟨a, ha, hb⟩ := bind_eq_ok h
  rcases hx a ha with ha' | ⟨e, he, ha'⟩
  · rw [ha']
    exact hf a b hb
  · exact Or.inr ⟨e, he, by rw [ha']; rfl⟩

theorem mapM {f f' : α → Except ε β} {l : List α} (hf : ∀ a ∈ l, Again E (f a) (f' a)) :
    Again E (l.mapM f) (l.mapM f') := by
  induction l with
  | nil => exact refl _
  | cons a rest ih =>
      rw [List.mapM_cons, List.mapM_cons]
      refine (hf a List.mem_cons_self).bind fun b => ?_
      exact (ih fun a' ha' => hf a' (List.mem_cons_of_mem a ha')).bind fun bs => refl _

theorem each {E : LinkError → Prop} {link link' : α → Except LinkError (α × List String)}
    {items : List α} (hlink : ∀ a ∈ items, Again E (link a) (link' a)) :
    Again E (Linker.each link items) (Linker.each link' items) := by
  induction items with
  | nil => exact refl _
  | cons a rest ih =>
      refine (hlink a List.mem_cons_self).bind fun r => ?_
      exact (ih fun a' ha' => hlink a' (List.mem_cons_of_mem a ha')).bind fun rs => refl _

end Again

/-- The name in full of something found that cannot be used. -/
def LinkError.refused? : LinkError → Option String
  | .notImported _ name _ => some name
  | .wrongExtendee _ name _ _ => some name
  | _ => none

namespace Linker

/-- The same file, linked with another table. -/
def on (l : Linker) (symbols : Symbols) : Linker :=
  { l with symbols }

/-- What is declared in the file itself or in a file that it imports. -/
def Sees (l : Linker) (symbol : Symbol) : Prop :=
  symbol.file = l.file ∨ symbol.file ∈ l.dependencies

/-- What was found where the file sees it is found in the other table too.  Or else something is
found there that the file does not see, and to refuse that is a reason in `E`. -/
def Meets (l : Linker) (E : LinkError → Prop) (before after : Option (String × Symbol)) : Prop :=
  ∀ full symbol, before = some (full, symbol) → l.Sees symbol → after = some (full, symbol) ∨
    ∃ other hidden, after = some (other, hidden) ∧ ¬ l.Sees hidden ∧
      ∀ e : LinkError, e.refused? = some other → E e

/-- What a use finds and the file sees, the use meets in the other table. -/
def Follows (l : Linker) (symbols : Symbols) (E : LinkError → Prop) (u : Use) : Prop :=
  l.Meets E (l.symbols.target? u) (symbols.target? u)

variable {l : Linker} {symbols : Symbols} {E : LinkError → Prop} {scope : String}

/-! ## Names -/

theorem sees_of_needed {element name : String} {symbol : Symbol} {used : List String}
    (h : l.needed element name symbol = .ok used) : l.Sees symbol := by
  unfold needed at h
  split at h
  · exact Or.inl ‹_›
  · split at h
    · exact Or.inr (List.contains_iff_mem.mp ‹_›)
    · cases h

theorem needed_of_not_sees {element name : String} {symbol : Symbol} (h : ¬ l.Sees symbol) :
    l.needed element name symbol = .error (.notImported element name symbol.file) := by
  rw [Sees, not_or] at h
  rw [needed, if_neg h.1, if_neg (mt List.contains_iff_mem.mp h.2)]

theorem type_again {element name : String}
    (hmeets : l.Meets E (l.find (fun s => s.kind.isType) scope name)
      (symbols.find (fun s => s.kind.isType) scope name)) :
    Again E (l.type element scope name) ((l.on symbols).type element scope name) := by
  intro r h
  rw [type] at h
  cases hl : l.find (fun s => s.kind.isType) scope name with
  | none =>
      rw [hl] at h
      cases h
  | some target =>
      obtain ⟨full, symbol⟩ := target
      rw [hl] at h
      obtain ⟨used, hused, -⟩ := bind_eq_ok h
      rw [type]
      rcases hmeets full symbol hl (sees_of_needed hused) with
        hfound | ⟨other, hidden, hfound, hunseen, hE⟩
      · have hfound : (l.on symbols).find (fun s => s.kind.isType) scope name =
            some (full, symbol) := hfound
        rw [hfound]
        exact Or.inl h
      · have hfound : (l.on symbols).find (fun s => s.kind.isType) scope name =
            some (other, hidden) := hfound
        have hneeded : (l.on symbols).needed element other hidden =
            .error (.notImported element other hidden.file) := needed_of_not_sees hunseen
        rw [hfound]
        simp only [hneeded]
        exact Or.inr ⟨_, hE _ rfl, rfl⟩

theorem messageType_again {element name : String} (hu : l.Follows symbols E (.message scope name)) :
    Again E (l.messageType element scope name) ((l.on symbols).messageType element scope name) :=
  (type_again hu).bind fun _ => .refl _

theorem extension_again {element name : String} {level : OptionLevel}
    (hu : l.Follows symbols E (.option element level name)) :
    Again E (l.extension element level name) ((l.on symbols).extension element level name) := by
  intro used h
  rw [extension] at h
  cases hl : l.find (fun s => s.kind = .extension) element name with
  | none =>
      rw [hl] at h
      cases h
  | some target =>
      obtain ⟨full, symbol⟩ := target
      simp only [hl] at h
      split at h
      · rename_i hextendee
        rw [extension]
        rcases hu full symbol hl (sees_of_needed h) with
          hfound | ⟨other, hidden, hfound, hunseen, hE⟩
        · have hfound : (l.on symbols).find (fun s => s.kind = .extension) element name =
              some (full, symbol) := hfound
          rw [hfound]
          simp only [hextendee, if_true]
          exact Or.inl h
        · have hfound : (l.on symbols).find (fun s => s.kind = .extension) element name =
              some (other, hidden) := hfound
          rw [hfound]
          dsimp only
          -- What it extends is looked at before the file that declares it.
          split
          · exact Or.inr ⟨_, hE _ rfl, needed_of_not_sees hunseen⟩
          · exact Or.inr ⟨_, hE _ rfl, rfl⟩
      · cases h

theorem options_again {element : String} {level : OptionLevel} {o : Option Options}
    (hu : ∀ u ∈ Options.uses element level o, l.Follows symbols E u) :
    Again E (l.options element level o) ((l.on symbols).options element level o) := by
  refine (Again.mapM fun name hname => ?_).bind fun _ => .refl _
  exact extension_again (hu _ (List.mem_map_of_mem hname))

/-! ## Elements -/

theorem field_again (f : FieldDescriptor) (hu : ∀ u ∈ f.uses scope, l.Follows symbols E u) :
    Again E (l.field scope f) ((l.on symbols).field scope f) := by
  rw [FieldDescriptor.uses, List.forall_mem_append, List.forall_mem_singleton] at hu
  refine (options_again hu.1).bind fun used => ?_
  cases hname : f.typeName with
  | none => exact .refl _
  | some name =>
      rw [hname] at hu
      exact (type_again hu.2).bind fun _ => .refl _

theorem extensionField_again (f : FieldDescriptor)
    (hu : ∀ u ∈ f.extensionUses scope, l.Follows symbols E u) :
    Again E (l.extensionField scope f) ((l.on symbols).extensionField scope f) := by
  rw [FieldDescriptor.extensionUses, List.forall_mem_append] at hu
  rw [extensionField, extensionField]
  cases hextendee : f.extendee with
  | none => exact field_again f hu.2
  | some name =>
      rw [hextendee] at hu
      have hmessage := hu.1 (.message scope name) (List.mem_singleton_self _)
      refine (messageType_again hmessage).bind fun r => ?_
      obtain ⟨full, used⟩ := r
      exact (field_again { f with extendee := some full } hu.2).bind fun _ => .refl _

theorem oneof_again (o : OneofDescriptor) (hu : ∀ u ∈ o.uses scope, l.Follows symbols E u) :
    Again E (l.oneof scope o) ((l.on symbols).oneof scope o) :=
  (options_again hu).bind fun _ => .refl _

theorem enumValue_again (v : EnumValueDescriptor) (hu : ∀ u ∈ v.uses scope, l.Follows symbols E u) :
    Again E (l.enumValue scope v) ((l.on symbols).enumValue scope v) :=
  (options_again hu).bind fun _ => .refl _

/-- The items of a list, each with its uses. -/
theorem items_again {α : Type} {link link' : α → Except LinkError (α × List String)}
    {uses : α → List Use} {items : List α}
    (hlink : ∀ a, (∀ u ∈ uses a, l.Follows symbols E u) → Again E (link a) (link' a))
    (hu : ∀ u ∈ items.flatMap uses, l.Follows symbols E u) :
    Again E (each link items) (each link' items) :=
  .each fun a ha => hlink a fun u hmem => hu u (List.mem_flatMap_of_mem ha hmem)

theorem enum_again (e : EnumDescriptor) (hu : ∀ u ∈ e.uses scope, l.Follows symbols E u) :
    Again E (l.enum scope e) ((l.on symbols).enum scope e) := by
  rw [EnumDescriptor.uses, List.forall_mem_append] at hu
  refine (options_again hu.1).bind fun _ => ?_
  exact (items_again enumValue_again hu.2).bind fun _ => .refl _

mutual

theorem message_again {scope : String} : (m : MessageDescriptor) →
    (∀ u ∈ m.uses scope, l.Follows symbols E u) →
    Again E (l.message scope m) ((l.on symbols).message scope m)
  | { name, fields, nested, enums, extensionRanges, extensions, options, oneofs, reservedRanges,
      reservedNames }, hu => by
      simp only [MessageDescriptor.uses, List.forall_mem_append] at hu
      obtain ⟨⟨⟨⟨⟨hoptions, hfields⟩, honeofs⟩, hnested⟩, henums⟩, hextensions⟩ := hu
      rw [message, message]
      refine (options_again hoptions).bind fun _ => ?_
      refine (items_again field_again hfields).bind fun _ => ?_
      refine (items_again oneof_again honeofs).bind fun _ => ?_
      refine (messages_again nested hnested).bind fun _ => ?_
      refine (items_again enum_again henums).bind fun _ => ?_
      exact (items_again extensionField_again hextensions).bind fun _ => .refl _

theorem messages_again {scope : String} : (ms : List MessageDescriptor) →
    (∀ u ∈ MessageDescriptor.usesList scope ms, l.Follows symbols E u) →
    Again E (l.messages scope ms) ((l.on symbols).messages scope ms)
  | [], _ => by
      rw [messages, messages]
      exact .refl _
  | m :: rest, hu => by
      rw [MessageDescriptor.usesList, List.forall_mem_append] at hu
      rw [messages, messages]
      refine (message_again m hu.1).bind fun _ => ?_
      exact (messages_again rest hu.2).bind fun _ => .refl _

end

theorem method_again {service : String} (m : MethodDescriptor)
    (hu : ∀ u ∈ m.uses scope service, l.Follows symbols E u) :
    Again E (l.method scope service m) ((l.on symbols).method scope service m) := by
  rw [MethodDescriptor.uses, List.forall_mem_append, List.forall_mem_cons,
    List.forall_mem_singleton] at hu
  obtain ⟨hoptions, hinput, houtput⟩ := hu
  refine (options_again hoptions).bind fun _ => ?_
  refine (messageType_again hinput).bind fun _ => ?_
  exact (messageType_again houtput).bind fun _ => .refl _

theorem service_again (s : ServiceDescriptor) (hu : ∀ u ∈ s.uses scope, l.Follows symbols E u) :
    Again E (l.service scope s) ((l.on symbols).service scope s) := by
  rw [ServiceDescriptor.uses, List.forall_mem_append] at hu
  refine (options_again hu.1).bind fun _ => ?_
  exact (items_again method_again hu.2).bind fun _ => .refl _

theorem fileParts_again {f : FileDescriptor} (hu : ∀ u ∈ f.uses, l.Follows symbols E u) :
    Again E (l.fileParts f) ((l.on symbols).fileParts f) := by
  simp only [FileDescriptor.uses, List.forall_mem_append] at hu
  obtain ⟨⟨⟨⟨hoptions, hmessages⟩, henums⟩, hextensions⟩, hservices⟩ := hu
  refine (options_again hoptions).bind fun _ => ?_
  refine (messages_again _ hmessages).bind fun _ => ?_
  refine (items_again enum_again henums).bind fun _ => ?_
  refine (items_again extensionField_again hextensions).bind fun _ => ?_
  exact (items_again service_again hservices).bind fun _ => .refl _

end Linker

/-! ## Files -/

/-- A file links again with a table that has all its imports, as far as its uses meet there what
they found before. -/
theorem Symbols.link_again {s s' : Symbols} {f : FileDescriptor} {E : LinkError → Prop}
    (hfiles : ∀ d ∈ f.dependencies, s'.containsFile d = true)
    (hu : ∀ u ∈ f.uses, Linker.Follows ⟨f.nameText, f.dependencies, s⟩ s' E u) :
    Again E (s.link f) (s'.link f) := by
  have hnone : (f.dependencies.find? fun d => !s'.containsFile d) = none := by
    refine List.find?_eq_none.mpr fun d hd => ?_
    simp [hfiles d hd]
  unfold link
  rw [hnone]
  split
  · rintro _ ⟨⟩
  · exact (Linker.fileParts_again hu).bind fun _ => .refl _

/-! ## What a name may stand for -/

/-- The names that `name` may stand for in `scope`, in the order in which they are tried. -/
def Linker.candidates (scope name : String) : List String :=
  match Text.withoutStart? "." name with
  | some full => [full]
  | none => (scopes scope).map fun s => qualify s name

theorem Linker.find_eq (l : Linker) (accept : Symbol → Bool) (scope name : String) :
    l.find accept scope name = (candidates scope name).findSome? fun full =>
      ((l.symbols.lookup full).filter accept).map fun symbol => (full, symbol) := by
  unfold find candidates
  cases Text.withoutStart? "." name with
  | none =>
      simp only [List.findSome?_map]
      rfl
  | some full => simp only [List.findSome?_singleton]

namespace Use

def candidates : Use → List String
  | .fieldType scope _ name => (name.map (Linker.candidates scope)).getD []
  | .message scope name => Linker.candidates scope name
  | .option element _ name => Linker.candidates element name

def accepts : Use → Symbol → Bool
  | .option .. => fun symbol => symbol.kind = .extension
  | _ => fun symbol => symbol.kind.isType

/-- The file declares something that the use may mean by `full`. -/
def namedIn (u : Use) (full : String) (f : FileDescriptor) : Bool :=
  (Declared.names f).any fun entry => entry.1 = Text.withoutLeading '.' full && u.accepts entry.2

/-- The first name that one of the files declares. -/
def meaning (u : Use) (files : List FileDescriptor) : Option String :=
  u.candidates.find? fun full => files.any (u.namedIn full)

variable {u : Use}

theorem not_package_of_accepts {symbol : Symbol} (h : u.accepts symbol = true) :
    symbol.kind ≠ .package := by
  intro hkind
  cases u <;> simp [accepts, hkind, SymbolKind.isType] at h

theorem namedIn_iff {full : String} {f : FileDescriptor} : u.namedIn full f = true ↔
    ∃ symbol, (Text.withoutLeading '.' full, symbol) ∈ Declared.names f ∧
      u.accepts symbol = true := by
  simp [namedIn]

end Use

theorem Symbols.target?_eq (s : Symbols) (u : Use) :
    s.target? u = u.candidates.findSome? fun full =>
      ((s.lookup full).filter u.accepts).map fun symbol => (full, symbol) := by
  cases u with
  | fieldType scope type name =>
      cases name with
      | none => rfl
      | some name => exact Linker.find_eq _ _ scope name
  | message scope name => exact Linker.find_eq _ _ scope name
  | option element level name => exact Linker.find_eq _ _ element name

/-! ## The file of a name -/

namespace Declared

variable {file scope : String}

theorem file_of_mem_enum {e : EnumDescriptor} {entry : String × Symbol}
    (h : entry ∈ enum file scope e) : entry.2.file = file := by
  rcases List.mem_cons.mp h with rfl | h
  · rfl
  · obtain ⟨v, -, rfl⟩ := List.mem_map.mp h
    rfl

mutual

theorem file_of_mem_message {file scope : String} : (m : MessageDescriptor) →
    {entry : String × Symbol} → entry ∈ message file scope m → entry.2.file = file
  | { name, fields, nested, enums, extensions, oneofs, .. }, entry, h => by
      simp only [message, List.mem_append, List.mem_cons, List.mem_map, List.mem_flatMap] at h
      rcases h with ((((rfl | ⟨f, -, rfl⟩) | ⟨o, -, rfl⟩) | h) | ⟨e, -, h⟩) | ⟨f, -, rfl⟩
      · rfl
      · rfl
      · rfl
      · exact file_of_mem_messages nested h
      · exact file_of_mem_enum h
      · rfl

theorem file_of_mem_messages {file scope : String} : (ms : List MessageDescriptor) →
    {entry : String × Symbol} → entry ∈ messages file scope ms → entry.2.file = file
  | [], _, h => by
      rw [messages] at h
      cases h
  | m :: rest, _, h => by
      rw [messages] at h
      rcases List.mem_append.mp h with h | h
      · exact file_of_mem_message m h
      · exact file_of_mem_messages rest h

end

theorem file_of_mem_service {s : ServiceDescriptor} {entry : String × Symbol}
    (h : entry ∈ service file scope s) : entry.2.file = file := by
  rcases List.mem_cons.mp h with rfl | h
  · rfl
  · obtain ⟨m, -, rfl⟩ := List.mem_map.mp h
    rfl

/-- A name is declared in the file that its symbol says. -/
theorem file_of_mem_names {f : FileDescriptor} {entry : String × Symbol} (h : entry ∈ names f) :
    entry.2.file = f.nameText := by
  simp only [names, List.mem_append, List.mem_map, List.mem_flatMap] at h
  rcases h with ((h | ⟨e, -, h⟩) | ⟨e, -, rfl⟩) | ⟨s, -, h⟩
  · exact file_of_mem_messages _ h
  · exact file_of_mem_enum h
  · rfl
  · exact file_of_mem_service h

end Declared

/-! ## Tables of the same files -/

/-- The file `g` is `f` itself or one that `f` imports. -/
def FileDescriptor.sees (f g : FileDescriptor) : Bool :=
  g.nameText = f.nameText || f.dependencies.contains g.nameText

/-- Files that do not get in each other's way.  Each has a name of its own, and so has all that they
declare.  What a use means among the files that its own file sees is what it means among all. -/
structure Compatible (files : List FileDescriptor) : Prop where
  named : ∀ f ∈ files, ∀ g ∈ files, f.nameText = g.nameText → f = g
  distinct : ∀ f ∈ files, ∀ g ∈ files, ∀ name ∈ (Declared.names f).map Prod.fst,
    name ∈ (Declared.names g).map Prod.fst → f = g
  apart : ∀ f ∈ files, ∀ g ∈ files, ∀ name ∈ (Declared.names f).map Prod.fst,
    name ∉ Declared.packages g
  unhidden : ∀ f ∈ files, ∀ u ∈ f.uses, ∀ full, u.meaning (files.filter f.sees) = some full →
    u.meaning files = some full

/-- Files whose names do not meet are compatible if no use means anything that its file does not see. -/
theorem Compatible.of_unambiguous {files : List FileDescriptor}
    (hnamed : (files.map FileDescriptor.nameText).Nodup) (hclear : Unambiguous files)
    (hunhidden : ∀ f ∈ files, ∀ u ∈ f.uses, ∀ full ∈ u.meaning (files.filter f.sees),
      u.meaning files = some full) : Compatible files := by
  have hdeclared : ∀ {f : FileDescriptor} {name : String}, name ∈ (Declared.names f).map Prod.fst →
      ∃ path symbol, f.declares? path = some (name, symbol) := by
    intro f name hname
    obtain ⟨⟨_, symbol⟩, hmem, rfl⟩ := List.mem_map.mp hname
    obtain ⟨path, hpath⟩ := Declared.mem_names.mp hmem
    exact ⟨path, symbol, hpath⟩
  refine ⟨fun f hf g hg h => List.inj_on_of_nodup_map hnamed hf hg h,
    fun f hf g hg name hname hname' => ?_, fun f hf g hg name hname hpackage => ?_, hunhidden⟩
  · obtain ⟨path, symbol, hpath⟩ := hdeclared hname
    obtain ⟨path', symbol', hpath'⟩ := hdeclared hname'
    obtain ⟨i, hi⟩ := List.mem_iff_getElem?.mp hf
    obtain ⟨j, hj⟩ := List.mem_iff_getElem?.mp hg
    obtain ⟨rfl, -⟩ := hclear.once i j f g path path' name symbol symbol' hi hj hpath hpath'
    exact Option.some.inj (hi.symm.trans hj)
  · obtain ⟨path, symbol, hpath⟩ := hdeclared hname
    exact hclear.apart f hf g hg path name symbol hpath (Declared.mem_packages.mp hpackage)

namespace Symbols

/-- The table has only what `files` declare, and all that those of them declare that are imported. -/
structure Of (s : Symbols) (files : List FileDescriptor) : Prop where
  origin : ∀ k symbol, s.table.get? k = some symbol →
    (symbol.kind = .package ∧ ∃ f ∈ files, k ∈ Declared.packages f) ∨
    ∃ f ∈ files, s.containsFile f.nameText = true ∧ (k, symbol) ∈ Declared.names f
  holds : ∀ f ∈ files, s.containsFile f.nameText = true → s.Has (Declared.names f)
  nodup : ∀ f ∈ files, s.containsFile f.nameText = true → ((Declared.names f).map Prod.fst).Nodup

theorem of_empty (files : List FileDescriptor) : ({} : Symbols).Of files where
  origin _ _ h := by cases h
  holds _ _ h := by cases h
  nodup _ _ h := by cases h

variable {s s' : Symbols} {files : List FileDescriptor} {f : FileDescriptor}

theorem Of.importFile (hs : s.Of files) (hfiles : Compatible files) (hf : f ∈ files)
    (h : s.importFile f = .ok s') : s'.Of files := by
  obtain ⟨hgrows, hcontains, hall⟩ := importFile_eq_ok h
  constructor
  · intro k symbol hk
    rcases hgrows.origin k symbol hk with hk | hpackage | hmem
    · refine (hs.origin k symbol hk).imp_right ?_
      rintro ⟨g, hg, hin, hmem⟩
      exact ⟨g, hg, (hcontains _).mpr (Or.inr hin), hmem⟩
    · exact Or.inl ⟨hpackage.1, f, hf, hpackage.2⟩
    · exact Or.inr ⟨f, hf, (hcontains _).mpr (Or.inl rfl), hmem⟩
  · intro g hg hin entry hentry
    rcases Bool.eq_false_or_eq_true (s.containsFile g.nameText) with hold | hnew
    · exact hgrows.keeps _ _ (hs.holds g hg hold entry hentry)
    · have hname := ((hcontains _).mp hin).resolve_right (by rw [hnew]; exact Bool.false_ne_true)
      obtain rfl := hfiles.named g hg f hf hname
      exact hall hnew entry hentry
  · intro g hg hin
    rcases Bool.eq_false_or_eq_true (s.containsFile g.nameText) with hold | hnew
    · exact hs.nodup g hg hold
    · have hname := ((hcontains _).mp hin).resolve_right (by rw [hnew]; exact Bool.false_ne_true)
      obtain rfl := hfiles.named g hg f hf hname
      exact nodup_of_importFile h hnew

/-- A file that declares no name twice can be imported into any table of files that it is compatible
with. -/
theorem Of.exists_importFile (hs : s.Of files) (hfiles : Compatible files) (hf : f ∈ files)
    (hnodup : ((Declared.names f).map Prod.fst).Nodup) : ∃ s', s.importFile f = .ok s' := by
  by_cases hin : s.containsFile f.nameText = true
  · exact ⟨s, by rw [Symbols.importFile, if_pos hin]⟩
  have hfree : ∀ name ∈ (Declared.names f).map Prod.fst, s.table.get? name = none := by
    intro name hname
    refine Option.eq_none_iff_forall_ne_some.mpr fun symbol hget => ?_
    rcases hs.origin name symbol hget with ⟨-, g, hg, hpackage⟩ | ⟨g, hg, hcontains, hmem⟩
    · exact hfiles.apart f hf g hg name hname hpackage
    · obtain rfl := hfiles.distinct f hf g hg name hname (List.mem_map_of_mem (f := Prod.fst) hmem)
      exact hin hcontains
  have hshared : ∀ package ∈ Declared.packages f, ∀ symbol,
      s.table.get? package = some symbol → symbol.kind = .package := by
    intro package hpackage symbol hget
    rcases hs.origin package symbol hget with ⟨hkind, -⟩ | ⟨g, hg, -, hmem⟩
    · exact hkind
    · exact absurd hpackage
        (hfiles.apart g hg f hf package (List.mem_map_of_mem (f := Prod.fst) hmem))
  obtain ⟨s', himports⟩ : ∃ s', [f].foldlM Symbols.importFile s = .ok s' := by
    refine exists_imports ?_ (List.Subset.refl _) ?_ ⟨?_, ?_⟩
    all_goals simp only [List.flatMap_singleton]
    · exact hnodup
    · exact fun package hpackage hname => hfiles.apart f hf f hf package hname hpackage
    · exact hfree
    · exact hshared
  obtain ⟨mid, hmid, -⟩ := foldlM_cons_eq_ok himports
  exact ⟨mid, hmid⟩

/-! ## The same file with two tables -/

theorem Of.find_of_named (hs : s.Of files) {g : FileDescriptor} (hg : g ∈ files)
    (hin : s.containsFile g.nameText = true) {u : Use} {full : String} {symbol : Symbol}
    (hmem : (Text.withoutLeading '.' full, symbol) ∈ Declared.names g)
    (haccepts : u.accepts symbol = true) :
    (s.lookup full).filter u.accepts = some symbol :=
  Option.filter_eq_some_iff.mpr ⟨hs.holds g hg hin _ hmem, haccepts⟩

theorem Of.named_of_find (hs : s.Of files) {u : Use} {full : String} {symbol : Symbol}
    (h : (s.lookup full).filter u.accepts = some symbol) :
    u.accepts symbol = true ∧ ∃ g ∈ files, s.containsFile g.nameText = true ∧
      (Text.withoutLeading '.' full, symbol) ∈ Declared.names g := by
  obtain ⟨hlookup, haccepts⟩ := Option.filter_eq_some_iff.mp h
  rcases hs.origin _ _ hlookup with ⟨hkind, -⟩ | hnamed
  · exact absurd hkind (Use.not_package_of_accepts haccepts)
  · exact ⟨haccepts, hnamed⟩

/-- The file is imported, and all that it imports itself. -/
def Ready (s : Symbols) (f : FileDescriptor) : Prop :=
  s.containsFile f.nameText = true ∧ ∀ d ∈ f.dependencies, s.containsFile d = true

theorem Ready.contains (h : s.Ready f) {g : FileDescriptor} (hg : f.sees g = true) :
    s.containsFile g.nameText = true := by
  rw [FileDescriptor.sees, Bool.or_eq_true, decide_eq_true_eq, List.contains_iff_mem] at hg
  rcases hg with hg | hg
  · rw [hg]
    exact h.1
  · exact h.2 _ hg

theorem Of.follows (hs : s.Of files) (hs' : s'.Of files) (hfiles : Compatible files) (hf : f ∈ files)
    (hready : s.Ready f) (hready' : s'.Ready f) {u : Use} (hu : u ∈ f.uses) :
    Linker.Follows ⟨f.nameText, f.dependencies, s⟩ s' (fun _ => False) u := by
  intro full symbol htarget hsees
  rw [target?_eq] at htarget
  obtain ⟨before, _, after, hcandidates, hfound, hbefore⟩ := List.findSome?_eq_some_iff.mp htarget
  obtain ⟨_, hfind, heq⟩ := Option.map_eq_some_iff.mp hfound
  cases heq
  obtain ⟨haccepts, g, hg, -, hmem⟩ := hs.named_of_find hfind
  have hvisible : f.sees g = true := by
    rw [FileDescriptor.sees, Bool.or_eq_true, decide_eq_true_eq, List.contains_iff_mem,
      ← Declared.file_of_mem_names hmem]
    exact hsees
  have hnamed : u.namedIn full g = true := Use.namedIn_iff.mpr ⟨symbol, hmem, haccepts⟩
  -- No file that `f` sees declares a name tried before, since all of them are in the table.
  have hmeaning : u.meaning (files.filter f.sees) = some full := by
    refine List.find?_eq_some_iff_append.mpr ⟨?_, before, after, hcandidates, fun c hc => ?_⟩
    · exact List.any_eq_true.mpr ⟨g, List.mem_filter.mpr ⟨hg, hvisible⟩, hnamed⟩
    · rw [Bool.not_eq_true', Bool.eq_false_iff]
      intro hany
      obtain ⟨h, hh, hc'⟩ := List.any_eq_true.mp hany
      obtain ⟨hh, hseen⟩ := List.mem_filter.mp hh
      obtain ⟨symbol', hmem', haccepts'⟩ := Use.namedIn_iff.mp hc'
      have hnone := hbefore c hc
      rw [hs.find_of_named hh (hready.contains hseen) hmem' haccepts'] at hnone
      cases hnone
  obtain ⟨-, before', after', hcandidates', hbefore'⟩ :=
    List.find?_eq_some_iff_append.mp (hfiles.unhidden f hf u hu full hmeaning)
  rw [target?_eq]
  refine Or.inl (List.findSome?_eq_some_iff.mpr
    ⟨before', full, after', hcandidates', ?_, fun c hc => ?_⟩)
  · rw [hs'.find_of_named hg (hready'.contains hvisible) hmem haccepts, Option.map_some]
  · rw [Option.map_eq_none_iff, Option.eq_none_iff_forall_ne_some]
    intro symbol' hfind'
    obtain ⟨haccepts', h, hh, -, hmem'⟩ := hs'.named_of_find hfind'
    have hfree := hbefore' c hc
    rw [Bool.not_eq_true', Bool.eq_false_iff] at hfree
    exact hfree (List.any_eq_true.mpr ⟨h, hh, Use.namedIn_iff.mpr ⟨symbol', hmem', haccepts'⟩⟩)

/-- Whatever else was imported, a file links to the same. -/
theorem Of.link_again (hs : s.Of files) (hs' : s'.Of files) (hfiles : Compatible files)
    (hf : f ∈ files) (hready : s.Ready f) (hready' : s'.Ready f) {linked : LinkedFile}
    (h : s.link f = .ok linked) : s'.link f = .ok linked := by
  have hagain := Symbols.link_again hready'.2 fun _ => hs.follows hs' hfiles hf hready hready'
  rcases hagain linked h with h | ⟨_, hfalse, -⟩
  · exact h
  · exact hfalse.elim

end Symbols
end Schematic
