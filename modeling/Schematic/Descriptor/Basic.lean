import Schematic.OptionBody

/-!
# Descriptors

A file descriptor says what a schema file declares: messages with their fields,
enums, services and extensions.  What may be left out of a descriptor is optional
here, and an absent value differs from an empty one.
-/

namespace Schematic

/-! ## Options -/

structure NamePart where
  name : String
  isExtension : Bool
deriving DecidableEq, Repr

/-- An option in the form in which it was written. -/
structure UninterpretedOption where
  name : List NamePart := []
  identifier : Option String := none
  positive : Option Nat := none
  negative : Option Int := none
  real : Option Binary64 := none
  bytes : Option (List UInt8) := none
  aggregate : Option String := none
deriving DecidableEq, Repr

/-- The value of an option that the descriptor format itself defines. -/
inductive Setting where
  | flag (b : Bool)
  | choice (i : Int)
  | text (s : String)
deriving DecidableEq, Repr

/-- The options of one element.  Settings stand under their field number in the
options message of the element's level, in ascending order. -/
structure Options where
  settings : List (Nat × Setting) := []
  uninterpreted : List UninterpretedOption := []
deriving DecidableEq, Repr

namespace Options

/-- The number of `map_entry` among the options of a message. -/
def mapEntryNumber : Nat := 7

def mapEntry? (o : Options) : Option Bool :=
  match o.settings.lookup mapEntryNumber with
  | some (.flag b) => some b
  | _ => none

/-- The options of a message that stands for an entry of a map. -/
def forMapEntry : Options := { settings := [(mapEntryNumber, .flag true)] }

end Options

/-- A custom option with its body. -/
def Extension.option (e : Extension) (body : OptionBody) : UninterpretedOption :=
  { name := [⟨e.name, true⟩], aggregate := some body.text }

/-- The custom option that an option sets, without dots before its name. -/
def UninterpretedOption.extensionName? (o : UninterpretedOption) : Option String :=
  match o.name with
  | part :: _ => if part.isExtension then some (Text.withoutLeading '.' part.name) else none
  | [] => none

/-! ## Fields -/

namespace FieldType

def double : Int := 1
def float : Int := 2
def int64 : Int := 3
def uint64 : Int := 4
def int32 : Int := 5
def bool : Int := 8
def string : Int := 9
def group : Int := 10
def message : Int := 11
def bytes : Int := 12
def uint32 : Int := 13
def enum : Int := 14

end FieldType

namespace FieldLabel

def optional : Int := 1
def repeated : Int := 3

end FieldLabel

/-- A field of a message, or an extension.  Label and type are numbers, which may be
ones that have no meaning. -/
structure FieldDescriptor where
  name : Option String := none
  number : Option Int := none
  label : Option Int := none
  type : Option Int := none
  typeName : Option String := none
  extendee : Option String := none
  defaultValue : Option String := none
  oneofIndex : Option Int := none
  jsonName : Option String := none
  proto3Optional : Option Bool := none
  options : Option Options := none
deriving DecidableEq, Repr

structure OneofDescriptor where
  name : Option String := none
  options : Option Options := none
deriving DecidableEq, Repr

/-! ## Enums -/

structure NumberRange where
  start : Option Int := none
  stop : Option Int := none
deriving DecidableEq, Repr

structure EnumValueDescriptor where
  name : Option String := none
  number : Option Int := none
  options : Option Options := none
deriving DecidableEq, Repr

structure EnumDescriptor where
  name : Option String := none
  values : List EnumValueDescriptor := []
  options : Option Options := none
  reservedRanges : List NumberRange := []
  reservedNames : List String := []
deriving DecidableEq, Repr

/-! ## Messages -/

structure ExtensionRange where
  range : NumberRange := {}
  options : Option Options := none
deriving DecidableEq, Repr

structure MessageDescriptor where
  name : Option String := none
  fields : List FieldDescriptor := []
  nested : List MessageDescriptor := []
  enums : List EnumDescriptor := []
  extensionRanges : List ExtensionRange := []
  extensions : List FieldDescriptor := []
  options : Option Options := none
  oneofs : List OneofDescriptor := []
  reservedRanges : List NumberRange := []
  reservedNames : List String := []
deriving Repr, Inhabited

/-! ## Services -/

structure MethodDescriptor where
  name : Option String := none
  inputType : Option String := none
  outputType : Option String := none
  options : Option Options := none
  clientStreaming : Option Bool := none
  serverStreaming : Option Bool := none
deriving DecidableEq, Repr

structure ServiceDescriptor where
  name : Option String := none
  methods : List MethodDescriptor := []
  options : Option Options := none
deriving DecidableEq, Repr

/-! ## Files -/

/-- Comments on one element, which its path leads to from the file. -/
structure Location where
  path : List Int := []
  span : List Int := []
  leading : Option String := none
  trailing : Option String := none
  detached : List String := []
deriving DecidableEq, Repr

structure FileDescriptor where
  name : Option String := none
  package : Option String := none
  dependencies : List String := []
  publicDependencies : List Int := []
  weakDependencies : List Int := []
  messages : List MessageDescriptor := []
  enums : List EnumDescriptor := []
  services : List ServiceDescriptor := []
  extensions : List FieldDescriptor := []
  options : Option Options := none
  locations : Option (List Location) := none
  dialect : Option String := none
deriving Repr

namespace FileDescriptor

def nameText (f : FileDescriptor) : String := f.name.getD ""
def packageText (f : FileDescriptor) : String := f.package.getD ""

end FileDescriptor

namespace MessageDescriptor

def nameText (m : MessageDescriptor) : String := m.name.getD ""

/-- Whether the message stands for an entry of a map. -/
def isMapEntry (m : MessageDescriptor) : Bool :=
  (m.options.bind Options.mapEntry?).getD false

end MessageDescriptor

def FieldDescriptor.nameText (f : FieldDescriptor) : String := f.name.getD ""
def OneofDescriptor.nameText (o : OneofDescriptor) : String := o.name.getD ""
def EnumDescriptor.nameText (e : EnumDescriptor) : String := e.name.getD ""
def EnumValueDescriptor.nameText (v : EnumValueDescriptor) : String := v.name.getD ""
def ServiceDescriptor.nameText (s : ServiceDescriptor) : String := s.name.getD ""
def MethodDescriptor.nameText (m : MethodDescriptor) : String := m.name.getD ""

end Schematic
