import Schematic.Descriptor.Basic
import Schematic.Wire.Basic

/-!
# Descriptors in wire format

Fields are written in ascending order of their numbers, and what is absent is left
out.
-/

namespace Schematic

open Wire

namespace NamePart

/-- Both fields are always written. -/
def encode (p : NamePart) : Bytes :=
  putText 1 p.name ++ putBool 2 p.isExtension

end NamePart

namespace UninterpretedOption

def encode (o : UninterpretedOption) : Bytes :=
  all (fun n p => putBytes n (NamePart.encode p)) 2 o.name ++
    opt putText 3 o.identifier ++ opt putNat 4 o.positive ++ opt putInt 5 o.negative ++
    opt putReal 6 o.real ++ opt putBytes 7 o.bytes ++ opt putText 8 o.aggregate

end UninterpretedOption

def Setting.encode (number : Nat) : Setting → Bytes
  | .flag b => putBool number b
  | .choice i => putInt number i
  | .text s => putText number s

namespace Options

def encode (o : Options) : Bytes :=
  o.settings.flatMap (fun (n, s) => s.encode n) ++
    all (fun n u => putBytes n (UninterpretedOption.encode u)) 999 o.uninterpreted

def put (number : Nat) (o : Options) : Bytes :=
  putBytes number o.encode

end Options

namespace FieldDescriptor

def encode (f : FieldDescriptor) : Bytes :=
  opt putText 1 f.name ++ opt putText 2 f.extendee ++ opt putInt 3 f.number ++
    opt putInt 4 f.label ++ opt putInt 5 f.type ++ opt putText 6 f.typeName ++
    opt putText 7 f.defaultValue ++ opt Options.put 8 f.options ++ opt putInt 9 f.oneofIndex ++
    opt putText 10 f.jsonName ++ opt putBool 17 f.proto3Optional

def put (number : Nat) (f : FieldDescriptor) : Bytes :=
  putBytes number f.encode

end FieldDescriptor

namespace NumberRange

def encode (r : NumberRange) : Bytes :=
  opt putInt 1 r.start ++ opt putInt 2 r.stop

def put (number : Nat) (r : NumberRange) : Bytes :=
  putBytes number r.encode

end NumberRange

namespace EnumDescriptor

def encodeValue (v : EnumValueDescriptor) : Bytes :=
  opt putText 1 v.name ++ opt putInt 2 v.number ++ opt Options.put 3 v.options

def encode (e : EnumDescriptor) : Bytes :=
  opt putText 1 e.name ++ all (fun n v => putBytes n (encodeValue v)) 2 e.values ++
    opt Options.put 3 e.options ++ all NumberRange.put 4 e.reservedRanges ++
    all putText 5 e.reservedNames

def put (number : Nat) (e : EnumDescriptor) : Bytes :=
  putBytes number e.encode

end EnumDescriptor

namespace MessageDescriptor

def encodeOneof (o : OneofDescriptor) : Bytes :=
  opt putText 1 o.name ++ opt Options.put 2 o.options

def encodeRange (r : ExtensionRange) : Bytes :=
  r.range.encode ++ opt Options.put 3 r.options

mutual

def encode : MessageDescriptor → Bytes
  | { name, fields, nested, enums, extensionRanges, extensions, options, oneofs, reservedRanges,
      reservedNames } =>
    opt putText 1 name ++ all FieldDescriptor.put 2 fields ++ encodeList 3 nested ++
      all EnumDescriptor.put 4 enums ++
      all (fun n r => putBytes n (encodeRange r)) 5 extensionRanges ++
      all FieldDescriptor.put 6 extensions ++ opt Options.put 7 options ++
      all (fun n o => putBytes n (encodeOneof o)) 8 oneofs ++
      all NumberRange.put 9 reservedRanges ++ all putText 10 reservedNames

def encodeList (number : Nat) : List MessageDescriptor → Bytes
  | [] => []
  | m :: rest => putBytes number (encode m) ++ encodeList number rest

end

end MessageDescriptor

namespace ServiceDescriptor

def encodeMethod (m : MethodDescriptor) : Bytes :=
  opt putText 1 m.name ++ opt putText 2 m.inputType ++ opt putText 3 m.outputType ++
    opt Options.put 4 m.options ++ opt putBool 5 m.clientStreaming ++ opt putBool 6 m.serverStreaming

def encode (s : ServiceDescriptor) : Bytes :=
  opt putText 1 s.name ++ all (fun n m => putBytes n (encodeMethod m)) 2 s.methods ++
    opt Options.put 3 s.options

end ServiceDescriptor

namespace Location

def encode (l : Location) : Bytes :=
  putPacked 1 l.path ++ putPacked 2 l.span ++ opt putText 3 l.leading ++ opt putText 4 l.trailing ++
    all putText 6 l.detached

end Location

namespace FileDescriptor

def encodeLocations (locations : List Location) : Bytes :=
  all (fun n l => putBytes n (Location.encode l)) 1 locations

def encode (f : FileDescriptor) : Bytes :=
  opt putText 1 f.name ++ opt putText 2 f.package ++ all putText 3 f.dependencies ++
    MessageDescriptor.encodeList 4 f.messages ++ all EnumDescriptor.put 5 f.enums ++
    all (fun n s => putBytes n (ServiceDescriptor.encode s)) 6 f.services ++
    all FieldDescriptor.put 7 f.extensions ++ opt Options.put 8 f.options ++
    opt (fun n l => putBytes n (encodeLocations l)) 9 f.locations ++
    all putInt 10 f.publicDependencies ++ all putInt 11 f.weakDependencies ++ opt putText 12 f.dialect

/-- A set of files. -/
def encodeSet (files : List FileDescriptor) : Bytes :=
  all (fun n f => putBytes n (encode f)) 1 files

end FileDescriptor
end Schematic
