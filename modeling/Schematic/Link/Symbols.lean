import Schematic.Descriptor.Basic
import Schematic.Dict

/-!
# Symbols

The table of all full names that a collection of files declares, without dots before
them.  Packages are in it too, and any number of files may share one.  A file is
imported as a whole or not at all.
-/

namespace Schematic

inductive SymbolKind where
  | package | message | enum | enumValue | field | oneof | service | method | extension
deriving DecidableEq, Repr

def SymbolKind.isType : SymbolKind → Bool
  | .message => true
  | .enum => true
  | _ => false

structure Symbol where
  kind : SymbolKind
  /-- The file that declares it, and no file for a package. -/
  file : String := ""
  /-- The message that an extension extends. -/
  extendee : Option String := none
deriving DecidableEq, Repr

/-- A name inside a scope. -/
def qualify (scope name : String) : String :=
  if scope = "" then name else scope ++ "." ++ name

/-! ## Errors -/

inductive LinkError where
  /-- A name is declared twice.  `existing` says where it was declared before. -/
  | duplicate (name existing : String)
  | unknownType (element name : String)
  | notImported (element name file : String)
  | wrongKind (element name expected : String)
  | unknownExtension (element name : String)
  | wrongExtendee (element name extendee expected : String)
  | missingType (element : String)
  | dependencyNotLinked (file : String)
deriving DecidableEq, Repr

def LinkError.message : LinkError → String
  | .duplicate name existing => name ++ " is already defined in " ++ existing
  | .unknownType element name => element ++ ": unknown type " ++ name
  | .notImported element name file =>
    element ++ ": " ++ name ++ " is declared in " ++ file ++ ", which is not imported"
  | .wrongKind element name expected => element ++ ": " ++ name ++ " is not a " ++ expected
  | .unknownExtension element name => element ++ ": unknown extension (" ++ name ++ ")"
  | .wrongExtendee element name extendee expected =>
    element ++ ": (" ++ name ++ ") extends " ++ extendee ++ ", not " ++ expected
  | .missingType element => element ++ ": field has neither a type nor a type name"
  | .dependencyNotLinked file => "dependency " ++ file ++ " has not been linked"

/-! ## Names that a file declares -/

namespace Declared

def one (file : String) (kind : SymbolKind) (name : String) : String × Symbol :=
  (name, { kind, file })

def extension (file scope : String) (f : FieldDescriptor) : String × Symbol :=
  (qualify scope f.nameText,
    { kind := .extension, file, extendee := f.extendee.map (Text.withoutLeading '.') })

/-- An enum, with its values beside it. -/
def enum (file scope : String) (e : EnumDescriptor) : List (String × Symbol) :=
  one file .enum (qualify scope e.nameText) ::
    e.values.map fun v => one file .enumValue (qualify scope v.nameText)

mutual

def message (file scope : String) : MessageDescriptor → List (String × Symbol)
  | { name, fields, nested, enums, extensions, oneofs, .. } =>
    let inner := qualify scope (name.getD "")
    one file .message inner :: fields.map (fun f => one file .field (qualify inner f.nameText)) ++
      oneofs.map (fun o => one file .oneof (qualify inner o.nameText)) ++
      messages file inner nested ++ enums.flatMap (enum file inner) ++
      extensions.map (extension file inner)

def messages (file scope : String) : List MessageDescriptor → List (String × Symbol)
  | [] => []
  | m :: rest => message file scope m ++ messages file scope rest

end

def service (file scope : String) (s : ServiceDescriptor) : List (String × Symbol) :=
  one file .service (qualify scope s.nameText) ::
    s.methods.map fun m => one file .method (qualify (qualify scope s.nameText) m.nameText)

/-- All names of a file, outer ones before those inside them. -/
def names (f : FileDescriptor) : List (String × Symbol) :=
  let file := f.nameText
  let scope := f.packageText
  messages file scope f.messages ++ f.enums.flatMap (enum file scope) ++
    f.extensions.map (extension file scope) ++ f.services.flatMap (service file scope)

/-- `a`, `a.b`, `a.b.c` for the segments of `a.b.c`, behind `scope`. -/
def packagesFrom (scope : String) : List String → List String
  | [] => []
  | segment :: rest => qualify scope segment :: packagesFrom (qualify scope segment) rest

def packages (f : FileDescriptor) : List String :=
  if f.packageText = "" then [] else packagesFrom "" (Text.pieces '.' f.packageText)

end Declared

/-! ## The table -/

structure Symbols where
  table : Dict Symbol := {}
  /-- The files imported, in ascending order. -/
  files : List String := []
deriving DecidableEq, Repr

namespace Symbols

def lookup (s : Symbols) (name : String) : Option Symbol :=
  s.table.get? (Text.withoutLeading '.' name)

def containsFile (s : Symbols) (file : String) : Bool :=
  s.files.contains file

def addPackage (table : Dict Symbol) (name : String) : Except LinkError (Dict Symbol) :=
  match table.get? name with
  | none => .ok (table.insert name { kind := .package })
  | some symbol => if symbol.kind = .package then .ok table else .error (.duplicate name symbol.file)

def addName (table : Dict Symbol) (entry : String × Symbol) : Except LinkError (Dict Symbol) :=
  match table.get? entry.1 with
  | none => .ok (table.insert entry.1 entry.2)
  | some symbol =>
    .error (.duplicate entry.1 (if symbol.file = "" then "a package" else symbol.file))

/-- The table with all names of a file. -/
def addFile (table : Dict Symbol) (f : FileDescriptor) : Except LinkError (Dict Symbol) := do
  let table ← (Declared.packages f).foldlM addPackage table
  (Declared.names f).foldlM addName table

/-- Imports a file.  One that is imported already changes nothing, whatever it
declares. -/
def importFile (s : Symbols) (f : FileDescriptor) : Except LinkError Symbols :=
  if s.containsFile f.nameText then .ok s
  else do
    let table ← addFile s.table f
    return ⟨table, Sorted.insert Sorted.nameLt f.nameText s.files⟩

end Symbols
end Schematic
