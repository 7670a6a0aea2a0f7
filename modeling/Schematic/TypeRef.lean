import Schematic.Dict
import Schematic.FileName
import Schematic.Node.Basic

/-!
# Types by name

What other files need to know of a declared type: where it is declared, and what
kind of schema it is.  A type is named by its package, which an import can give a
short name, and by its name there.
-/

namespace Schematic

/-- The values of an enum, each under its full name. -/
structure EnumTable where
  valuePrefix : String := ""
  values : List (String × Int) := []
deriving DecidableEq, Repr

namespace EnumTable

/-- `name`, with the prefix in front unless it starts with it. -/
def prefixed (valuePrefix name : String) : String :=
  if Text.startsWith valuePrefix name then name else valuePrefix ++ name

/-- A value by its full name, or by its name without the prefix. -/
def value? (t : EnumTable) (name : String) : Option (String × Int) :=
  t.values.find? fun v => v.1 == prefixed t.valuePrefix name

end EnumTable

inductive TypeKind where
  | object (entity : Option EntityRef)
  | oneof
  | enum (table : EnumTable)
  | polymorph (members : List String)
deriving DecidableEq, Repr

def TypeKind.name : TypeKind → String
  | .object _ => "object"
  | .oneof => "oneof"
  | .enum _ => "enum"
  | .polymorph _ => "polymorph"

structure TypeRef where
  package : String
  /-- The name within the package, with dots if nested. -/
  name : String
  /-- The file that declares the type. -/
  file : String
  kind : TypeKind
deriving DecidableEq, Repr

namespace TypeRef

def fullName (t : TypeRef) : String :=
  if t.package = "" then t.name else t.package ++ "." ++ t.name

/-- The full name with a dot before it, as descriptors write it. -/
def dottedName (t : TypeRef) : String :=
  "." ++ t.fullName

end TypeRef

/-! ## Types of other files -/

inductive ResolveError where
  | typeNotFound (package name : String)
  | packageNotFound (package : String)
deriving DecidableEq, Repr

def ResolveError.message : ResolveError → String
  | .typeNotFound package name => "type " ++ name ++ " not found in package " ++ package
  | .packageNotFound package => "package " ++ package ++ " not found"

/-- Finds a type by its package and its name there. -/
abbrev Resolver := (package name : String) → Except ResolveError TypeRef

/-- A fixed collection of types.  Of two with one name the later counts. -/
structure TypeTable where
  types : List TypeRef := []
deriving DecidableEq, Repr

namespace TypeTable

def resolve (t : TypeTable) : Resolver := fun package name =>
  match t.types.reverse.find? fun r => r.package == package && r.name == name with
  | some found => .ok found
  | none =>
    if t.types.any fun r => r.package == package then .error (.typeNotFound package name)
    else .error (.packageNotFound package)

end TypeTable

/-! ## Well-known types

Messages that generated files refer to and no package has to declare. -/

namespace WellKnown

def timestamp : RefName := ⟨some "google.protobuf", "Timestamp"⟩
def empty : RefName := ⟨some "google.protobuf", "Empty"⟩
def decimal : RefName := ⟨some "j5.types.decimal.v1", "Decimal"⟩
def date : RefName := ⟨some "j5.types.date.v1", "Date"⟩
def any : RefName := ⟨some "j5.types.any.v1", "Any"⟩
def stateMetadata : RefName := ⟨some "j5.state.v1", "StateMetadata"⟩
def eventMetadata : RefName := ⟨some "j5.state.v1", "EventMetadata"⟩
def pageRequest : RefName := ⟨some "j5.list.v1", "PageRequest"⟩
def pageResponse : RefName := ⟨some "j5.list.v1", "PageResponse"⟩
def queryRequest : RefName := ⟨some "j5.list.v1", "QueryRequest"⟩
def eventPublishMetadata : RefName := ⟨some "j5.messaging.v1", "EventPublishMetadata"⟩
def upsertMetadata : RefName := ⟨some "j5.messaging.v1", "UpsertMetadata"⟩

def emptyFile : String := "google/protobuf/empty.proto"
def anyFile : String := "j5/types/any/v1/any.proto"

/-- The well-known types, each with the file that declares it. -/
def files : List (RefName × String) :=
  [(timestamp, "google/protobuf/timestamp.proto"),
    (empty, emptyFile),
    (decimal, "j5/types/decimal/v1/decimal.proto"),
    (date, "j5/types/date/v1/date.proto"),
    (any, anyFile),
    (stateMetadata, "j5/state/v1/metadata.proto"),
    (eventMetadata, "j5/state/v1/metadata.proto"),
    (pageRequest, "j5/list/v1/page.proto"),
    (pageResponse, "j5/list/v1/page.proto"),
    (queryRequest, "j5/list/v1/query.proto"),
    (eventPublishMetadata, "j5/messaging/v1/metadata.proto"),
    (upsertMetadata, "j5/messaging/v1/metadata.proto")]

def file? (package name : String) : Option String :=
  files.lookup ⟨some package, name⟩

def type? (package name : String) : Option TypeRef :=
  (file? package name).map fun file => ⟨package, name, file, .object none⟩

/-- Whether no package of a repository can bear this name. -/
def isPackage (package : String) : Bool :=
  files.any (fun entry => entry.1.package == some package) ||
    Text.startsWith "google." package || Text.startsWith "buf.validate" package

end WellKnown

/-! ## Imported packages by their short names

An imported package can be named by its alias or, if it has none, by the segment
before its version: `bar` for `acme.bar.v1`.  An alias replaces what had its name
before.  A short name counts only if nothing earlier has that name. -/

structure ImportScope where
  aliases : Dict String := {}
deriving DecidableEq, Repr

namespace ImportScope

/-- The segment before the first version segment. -/
def shortNameList? : (before : Option String) → List String → Option String
  | _, [] => none
  | before, segment :: rest =>
    if FileName.isVersion segment then before else shortNameList? (some segment) rest

def shortName? (package : String) : Option String :=
  shortNameList? none (Text.pieces '.' package)

def add (scope : ImportScope) (i : Import) : ImportScope :=
  match i.package, i.localName with
  | none, _ => scope
  | some package, some name => ⟨scope.aliases.insert name package⟩
  | some package, none =>
    match shortName? package with
    | none => scope
    | some short =>
      if scope.aliases.contains short then scope else ⟨scope.aliases.insert short package⟩

def ofImports (imports : List Import) : ImportScope :=
  imports.foldl add {}

/-- The package that a qualifier stands for.  One that is no short name stands for
itself. -/
def expand (scope : ImportScope) (qualifier : String) : String :=
  (scope.aliases.get? qualifier).getD qualifier

end ImportScope
end Schematic
