import Schematic.Document.Decode
import Schematic.Node.Basic
import Schematic.TypeRef

/-!
# What can be wrong with a document
-/

namespace Schematic

inductive Bound where
  | minimum | maximum
deriving DecidableEq, Repr

def Bound.text : Bound → String
  | .minimum => "minimum"
  | .maximum => "maximum"

/-- Why a property or a membership has no place in a descriptor. -/
inductive ConvertError where
  | unresolved (cause : ResolveError)
  | requiredAndOptional (property : String)
  | optionalCollection (property kind : String)
  | nestedCollection (property outer inner : String)
  | exclusiveWithoutBound (property : String) (bound : Bound)
  | unknownEnumValue (enum value : String)
  | wrongKind (subject target expected found : String)
  | notPolymorphMember (object polymorph : String)
deriving DecidableEq, Repr

def ConvertError.message : ConvertError → String
  | .unresolved cause => cause.message
  | .requiredAndOptional property => "property " ++ property ++ " cannot be both required and optional"
  | .optionalCollection property kind => kind ++ " property " ++ property ++ " cannot be optional"
  | .nestedCollection property outer inner =>
    "property " ++ property ++ ": " ++ outer ++ " items cannot be " ++ inner
  | .exclusiveWithoutBound property bound =>
    "property " ++ property ++ ": exclusive " ++ bound.text ++ " is set without a " ++ bound.text ++
      " value"
  | .unknownEnumValue enum value => "enum " ++ enum ++ " has no value " ++ value
  | .wrongKind subject target expected found =>
    "property " ++ subject ++ ": " ++ target ++ " is a " ++ found ++ ", expected " ++ expected
  | .notPolymorphMember object polymorph =>
    "object " ++ object ++ " declares membership of " ++ polymorph ++ ", which does not list it"

/-- What a diagnostic about a source file reports. -/
inductive SourceError where
  | undecodable (cause : DecodeError)
  | malformed (cause : NodeError)
  | unconvertible (cause : ConvertError)
  /-- Reported by the reader of some other kind of file. -/
  | other (message : String)
deriving DecidableEq, Repr

def SourceError.message : SourceError → String
  | .undecodable _ => "not a schema document"
  | .malformed cause => cause.message
  | .unconvertible cause => cause.message
  | .other message => message

instance : ToString SourceError := ⟨SourceError.message⟩

/-- The error of an element, at its place. -/
def NodeError.diagnostic (e : NodeError) : Diagnostic SourceError :=
  { place := some e.place, cause := .malformed e }

end Schematic
