import Schematic.Link.Symbols

/-!
# Linking a file

Linking writes every type name of a file in full and sets the types of fields that
have none.  A name without a dot before it is looked for in the scope it stands in,
then in the scope around that one, and so on outwards.  What is found must be declared
in the file itself or in a file that it imports.  Custom options are looked up in the
same way.
-/

namespace Schematic

structure LinkedFile where
  descriptor : FileDescriptor
  /-- The imports that nothing in the file needs. -/
  unusedImports : List String := []

/-- What a file is linked with. -/
structure Linker where
  file : String
  dependencies : List String
  symbols : Symbols

namespace Linker

/-! ## Names -/

/-- A scope and those around it, the innermost first. -/
def scopes (scope : String) : List String :=
  let segments := Text.pieces '.' scope
  (List.range (segments.length + 1)).reverse.map fun n => Text.join "." (segments.take n)

/-- The full name that `name` stands for in `scope`, among symbols that `accept`
accepts. -/
def find (l : Linker) (accept : Symbol → Bool) (scope name : String) : Option (String × Symbol) :=
  let symbol? (full : String) : Option (String × Symbol) :=
    ((l.symbols.lookup full).filter accept).map fun symbol => (full, symbol)
  match Text.withoutStart? "." name with
  | some full => symbol? full
  | none => (scopes scope).findSome? fun s => symbol? (qualify s name)

/-- The import that a symbol needs, none if the file itself declares it. -/
def needed (l : Linker) (element name : String) (symbol : Symbol) : Except LinkError (List String) :=
  if symbol.file = l.file then .ok []
  else if l.dependencies.contains symbol.file then .ok [symbol.file]
  else .error (.notImported element name symbol.file)

/-- A type by its full name, with its kind and the imports it needs. -/
def type (l : Linker) (element scope name : String) :
    Except LinkError (String × SymbolKind × List String) :=
  match l.find (fun s => s.kind.isType) scope name with
  | none => .error (.unknownType element name)
  | some (full, symbol) => do
    let used ← l.needed element full symbol
    return (full, symbol.kind, used)

/-- A message by its full name with the dot. -/
def messageType (l : Linker) (element scope name : String) :
    Except LinkError (String × List String) := do
  let (full, kind, used) ← l.type element scope name
  if kind = .message then return ("." ++ full, used)
  else throw (.wrongKind element full "message")

/-! ## Options -/

/-- The imports that a custom option needs. -/
def extension (l : Linker) (element : String) (level : OptionLevel) (name : String) :
    Except LinkError (List String) :=
  let expected := "google.protobuf." ++ level.messageName
  match l.find (fun s => s.kind = .extension) element name with
  | none => .error (.unknownExtension element name)
  | some (full, symbol) =>
    if symbol.extendee = some expected then l.needed element full symbol
    else .error (.wrongExtendee element full (symbol.extendee.getD "") expected)

/-- The imports that options need. -/
def options (l : Linker) (element : String) (level : OptionLevel) (o : Option Options) :
    Except LinkError (List String) := do
  let names := (o.map Options.uninterpreted).getD [] |>.filterMap UninterpretedOption.extensionName?
  let used ← names.mapM (l.extension element level)
  return used.flatten

/-! ## Elements -/

/-- Links the items of a list one after the other. -/
def each {α : Type} (link : α → Except LinkError (α × List String)) :
    List α → Except LinkError (List α × List String)
  | [] => .ok ([], [])
  | a :: rest => do
    let (a, used) ← link a
    let (rest, others) ← each link rest
    return (a :: rest, used ++ others)

/-- The type of a field that names a type of this kind. -/
def fieldType (kind : SymbolKind) : Int :=
  if kind = .enum then FieldType.enum else FieldType.message

/-- Whether a field of type `declared` may name a type of this kind. -/
def agrees (kind : SymbolKind) (declared : Option Int) : Bool :=
  declared = none || declared = some (fieldType kind) ||
    (declared = some FieldType.group && kind ≠ .enum)

def field (l : Linker) (scope : String) (f : FieldDescriptor) :
    Except LinkError (FieldDescriptor × List String) := do
  let element := qualify scope f.nameText
  let used ← l.options element .field f.options
  match f.typeName with
  | none => if f.type = none then throw (.missingType element) else return (f, used)
  | some name =>
    let (full, kind, others) ← l.type element scope name
    if agrees kind f.type then
      return ({ f with
        type := some (f.type.getD (fieldType kind)), typeName := some ("." ++ full) }, used ++ others)
    else throw (.wrongKind element full (if kind = .enum then "message" else "enum"))

def extensionField (l : Linker) (scope : String) (f : FieldDescriptor) :
    Except LinkError (FieldDescriptor × List String) :=
  match f.extendee with
  | none => l.field scope f
  | some name => do
    let (extendee, used) ← l.messageType (qualify scope f.nameText) scope name
    let (f, others) ← l.field scope { f with extendee := some extendee }
    return (f, used ++ others)

def oneof (l : Linker) (scope : String) (o : OneofDescriptor) :
    Except LinkError (OneofDescriptor × List String) := do
  let used ← l.options (qualify scope o.nameText) .oneof o.options
  return (o, used)

def enumValue (l : Linker) (scope : String) (v : EnumValueDescriptor) :
    Except LinkError (EnumValueDescriptor × List String) := do
  let used ← l.options (qualify scope v.nameText) .enumValue v.options
  return (v, used)

def enum (l : Linker) (scope : String) (e : EnumDescriptor) :
    Except LinkError (EnumDescriptor × List String) := do
  let name := qualify scope e.nameText
  let used ← l.options name .enum e.options
  let (_, others) ← each (l.enumValue name) e.values
  return (e, used ++ others)

mutual

def message (l : Linker) (scope : String) :
    MessageDescriptor → Except LinkError (MessageDescriptor × List String)
  | { name, fields, nested, enums, extensionRanges, extensions, options, oneofs, reservedRanges,
      reservedNames } => do
    let inner := qualify scope (name.getD "")
    let used₁ ← l.options inner .message options
    let (fields, used₂) ← each (l.field inner) fields
    let (_, used₃) ← each (l.oneof inner) oneofs
    let (nested, used₄) ← messages l inner nested
    let (_, used₅) ← each (l.enum inner) enums
    let (extensions, used₆) ← each (l.extensionField inner) extensions
    return ({ name, fields, nested, enums, extensionRanges, extensions, options, oneofs,
              reservedRanges, reservedNames },
      used₁ ++ used₂ ++ used₃ ++ used₄ ++ used₅ ++ used₆)

def messages (l : Linker) (scope : String) :
    List MessageDescriptor → Except LinkError (List MessageDescriptor × List String)
  | [] => .ok ([], [])
  | m :: rest => do
    let (m, used) ← message l scope m
    let (rest, others) ← messages l scope rest
    return (m :: rest, used ++ others)

end

/-- Names in a method are looked for in the scope of its service. -/
def method (l : Linker) (scope service : String) (m : MethodDescriptor) :
    Except LinkError (MethodDescriptor × List String) := do
  let element := qualify service m.nameText
  let used₁ ← l.options element .method m.options
  let (input, used₂) ← l.messageType element scope (m.inputType.getD "")
  let (output, used₃) ← l.messageType element scope (m.outputType.getD "")
  return ({ m with inputType := some input, outputType := some output }, used₁ ++ used₂ ++ used₃)

def service (l : Linker) (scope : String) (s : ServiceDescriptor) :
    Except LinkError (ServiceDescriptor × List String) := do
  let name := qualify scope s.nameText
  let used ← l.options name .service s.options
  let (methods, others) ← each (l.method scope name) s.methods
  return ({ s with methods }, used ++ others)

def fileParts (l : Linker) (f : FileDescriptor) : Except LinkError (FileDescriptor × List String) := do
  let scope := f.packageText
  let used₁ ← l.options scope .file f.options
  let (messages, used₂) ← l.messages scope f.messages
  let (_, used₃) ← each (l.enum scope) f.enums
  let (extensions, used₄) ← each (l.extensionField scope) f.extensions
  let (services, used₅) ← each (l.service scope) f.services
  return ({ f with messages, extensions, services }, used₁ ++ used₂ ++ used₃ ++ used₄ ++ used₅)

end Linker

namespace Symbols

/-- Links a file.  It and all its dependencies are imported already. -/
def link (s : Symbols) (f : FileDescriptor) : Except LinkError LinkedFile :=
  match f.dependencies.find? fun d => !s.containsFile d with
  | some missing => .error (.dependencyNotLinked missing)
  | none => do
    let (descriptor, used) ← Linker.fileParts ⟨f.nameText, f.dependencies, s⟩ f
    return { descriptor, unusedImports := f.dependencies.filter fun d => !used.contains d }

end Symbols
end Schematic
