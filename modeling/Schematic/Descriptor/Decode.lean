import Schematic.Descriptor.Basic
import Schematic.Wire.Basic

/-!
# Descriptors from wire format

A part that is given more than once is merged.  Messages may be nested a hundred
levels deep.
-/

namespace Schematic

open Wire

/-- Reads a message of the wire format at some depth. -/
structure WireReader (α : Type) where
  known : List Nat
  ofRecord : (depth : Nat) → Record → Option α

namespace WireReader

variable {α : Type}

/-- The record of a message that stands in another at `depth`. -/
def inner (reader : WireReader α) (depth : Nat) (bytes : Bytes) : Option Record :=
  if depth = 0 then none else Wire.read reader.known (depth - 1) bytes

/-- All messages of a field. -/
def all (reader : WireReader α) (depth : Nat) (r : Record) (number : Nat) : Option (List α) := do
  (← r.chunks number).mapM fun b => do
    reader.ofRecord (depth - 1) (← reader.inner depth b)

/-- The message of a field that is given at most once, or several times in parts. -/
def opt (reader : WireReader α) (depth : Nat) (r : Record) (number : Nat) : Option (Option α) := do
  let chunks ← r.chunks number
  if chunks.isEmpty then return none
  else
    let records ← chunks.mapM (reader.inner depth)
    return some (← reader.ofRecord (depth - 1) records.flatten)

end WireReader

namespace NamePart

def reader : WireReader NamePart where
  known := [1, 2]
  ofRecord _ r := do
    return ⟨(← r.text? 1).getD "", (← r.bool? 2).getD false⟩

end NamePart

namespace UninterpretedOption

def reader : WireReader UninterpretedOption where
  known := [2, 3, 4, 5, 6, 7, 8]
  ofRecord depth r := do
    return { name := ← NamePart.reader.all depth r 2
             identifier := ← r.text? 3
             positive := ← r.nat? 4
             negative := ← r.int64? 5
             real := ← r.real? 6
             bytes := ← r.bytes? 7
             aggregate := ← r.text? 8 }

end UninterpretedOption

/-! ## Settings -/

inductive SettingKind where
  | flag | choice | text
deriving DecidableEq, Repr

def SettingKind.read? (r : Record) (number : Nat) : SettingKind → Option (Option Setting)
  | .flag => do return (← r.bool? number).map .flag
  | .choice => do return (← r.int32? number).map .choice
  | .text => do return (← r.text? number).map .text

/-- The settings that the options message of a level defines. -/
def OptionLevel.settings : OptionLevel → List (Nat × SettingKind)
  | .file =>
    [(1, .text), (8, .text), (9, .choice), (10, .flag), (11, .text), (16, .flag), (17, .flag),
      (18, .flag), (20, .flag), (23, .flag), (27, .flag), (31, .flag), (36, .text), (37, .text),
      (39, .text), (40, .text), (41, .text), (42, .flag), (44, .text), (45, .text)]
  | .message => [(1, .flag), (2, .flag), (3, .flag), (7, .flag)]
  | .field => [(1, .choice), (2, .flag), (3, .flag), (5, .flag), (6, .choice), (10, .flag)]
  | .oneof => []
  | .enum => [(2, .flag), (3, .flag)]
  | .enumValue => [(1, .flag)]
  | .service => [(33, .flag)]
  | .method => [(33, .flag), (34, .choice)]

namespace Options

def readerOf (settings : List (Nat × SettingKind)) : WireReader Options where
  known := 999 :: settings.map Prod.fst
  ofRecord depth r := do
    let values ← settings.mapM fun (number, kind) => do
      return (← kind.read? r number).map fun s => (number, s)
    return { settings := values.filterMap id
             uninterpreted := ← UninterpretedOption.reader.all depth r 999 }

def reader (level : OptionLevel) : WireReader Options :=
  readerOf level.settings

end Options

/-! ## Descriptors -/

namespace FieldDescriptor

def reader : WireReader FieldDescriptor where
  known := [1, 2, 3, 4, 5, 6, 7, 8, 9, 10, 17]
  ofRecord depth r := do
    return { name := ← r.text? 1
             extendee := ← r.text? 2
             number := ← r.int32? 3
             label := ← r.int32? 4
             type := ← r.int32? 5
             typeName := ← r.text? 6
             defaultValue := ← r.text? 7
             options := ← (Options.reader .field).opt depth r 8
             oneofIndex := ← r.int32? 9
             jsonName := ← r.text? 10
             proto3Optional := ← r.bool? 17 }

end FieldDescriptor

namespace NumberRange

def reader : WireReader NumberRange where
  known := [1, 2]
  ofRecord _ r := do
    return ⟨← r.int32? 1, ← r.int32? 2⟩

end NumberRange

namespace EnumValueDescriptor

def reader : WireReader EnumValueDescriptor where
  known := [1, 2, 3]
  ofRecord depth r := do
    return { name := ← r.text? 1
             number := ← r.int32? 2
             options := ← (Options.reader .enumValue).opt depth r 3 }

end EnumValueDescriptor

namespace EnumDescriptor

def reader : WireReader EnumDescriptor where
  known := [1, 2, 3, 4, 5]
  ofRecord depth r := do
    return { name := ← r.text? 1
             values := ← EnumValueDescriptor.reader.all depth r 2
             options := ← (Options.reader .enum).opt depth r 3
             reservedRanges := ← NumberRange.reader.all depth r 4
             reservedNames := ← r.texts 5 }

end EnumDescriptor

namespace OneofDescriptor

def reader : WireReader OneofDescriptor where
  known := [1, 2]
  ofRecord depth r := do
    return { name := ← r.text? 1
             options := ← (Options.reader .oneof).opt depth r 2 }

end OneofDescriptor

namespace ExtensionRange

def reader : WireReader ExtensionRange where
  known := [1, 2, 3]
  ofRecord depth r := do
    return { range := ⟨← r.int32? 1, ← r.int32? 2⟩
             options := ← (Options.readerOf []).opt depth r 3 }

end ExtensionRange

namespace MessageDescriptor

def known : List Nat := [1, 2, 3, 4, 5, 6, 7, 8, 9, 10]

def ofRecord : (depth : Nat) → Record → Option MessageDescriptor
  | 0, r =>
    -- Nothing can be nested at depth 0, but a message without parts can stand there.
    if (r.filter fun (n, _) => [2, 3, 4, 5, 6, 7, 8, 9].contains n).isEmpty then do
      return { name := ← r.text? 1, reservedNames := ← r.texts 10 }
    else none
  | depth + 1, r => do
    return { name := ← r.text? 1
             fields := ← FieldDescriptor.reader.all (depth + 1) r 2
             nested := ← (← r.chunks 3).mapM fun b => do
               ofRecord depth (← Wire.read known depth b)
             enums := ← EnumDescriptor.reader.all (depth + 1) r 4
             extensionRanges := ← ExtensionRange.reader.all (depth + 1) r 5
             extensions := ← FieldDescriptor.reader.all (depth + 1) r 6
             options := ← (Options.reader .message).opt (depth + 1) r 7
             oneofs := ← OneofDescriptor.reader.all (depth + 1) r 8
             reservedRanges := ← NumberRange.reader.all (depth + 1) r 9
             reservedNames := ← r.texts 10 }

def reader : WireReader MessageDescriptor where
  known := known
  ofRecord := ofRecord

end MessageDescriptor

namespace MethodDescriptor

def reader : WireReader MethodDescriptor where
  known := [1, 2, 3, 4, 5, 6]
  ofRecord depth r := do
    return { name := ← r.text? 1
             inputType := ← r.text? 2
             outputType := ← r.text? 3
             options := ← (Options.reader .method).opt depth r 4
             clientStreaming := ← r.bool? 5
             serverStreaming := ← r.bool? 6 }

end MethodDescriptor

namespace ServiceDescriptor

def reader : WireReader ServiceDescriptor where
  known := [1, 2, 3]
  ofRecord depth r := do
    return { name := ← r.text? 1
             methods := ← MethodDescriptor.reader.all depth r 2
             options := ← (Options.reader .service).opt depth r 3 }

end ServiceDescriptor

namespace Location

def reader : WireReader Location where
  known := [1, 2, 3, 4, 6]
  ofRecord _ r := do
    return { path := ← r.int32s 1
             span := ← r.int32s 2
             leading := ← r.text? 3
             trailing := ← r.text? 4
             detached := ← r.texts 6 }

def listReader : WireReader (List Location) where
  known := [1]
  ofRecord depth r := reader.all depth r 1

end Location

namespace FileDescriptor

def reader : WireReader FileDescriptor where
  known := [1, 2, 3, 4, 5, 6, 7, 8, 9, 10, 11, 12]
  ofRecord depth r := do
    return { name := ← r.text? 1
             package := ← r.text? 2
             dependencies := ← r.texts 3
             messages := ← MessageDescriptor.reader.all depth r 4
             enums := ← EnumDescriptor.reader.all depth r 5
             services := ← ServiceDescriptor.reader.all depth r 6
             extensions := ← FieldDescriptor.reader.all depth r 7
             options := ← (Options.reader .file).opt depth r 8
             locations := ← Location.listReader.opt depth r 9
             publicDependencies := ← r.int32s 10
             weakDependencies := ← r.int32s 11
             dialect := ← r.text? 12 }

/-- How deep messages may be nested. -/
def nestingLimit : Nat := 100

/-- Reads a set of files. -/
def decodeSet (bytes : Bytes) : Option (List FileDescriptor) := do
  let r ← Wire.read [1] nestingLimit bytes
  reader.all nestingLimit r 1

end FileDescriptor
end Schematic
