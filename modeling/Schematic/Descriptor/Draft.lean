import Schematic.Descriptor.Basic
import Schematic.Diagnostic
import Schematic.Dict

/-!
# Drafts

A draft is a descriptor whose elements still have their descriptions and spans
beside them.  From a draft come both the descriptor and the comments, so the path of
a comment and the place of its element cannot disagree.

Descriptions of elements become comments.  Each stands under the path that leads to
its element, a list of field numbers of the descriptor format and indexes.
-/

namespace Schematic

/-! ## Comments -/

structure Comment where
  path : List Int
  span : Span
  text : String
deriving DecidableEq, Repr

/-- The largest number that a path or a span holds. -/
def largestInt32 : Nat := Nat.pow 2 31 - 1

namespace Comment

/-- The comment on an element.  A blank description is none. -/
def describing (path : List Int) (span : Span) (description : Option String) : List Comment :=
  match description with
  | some text => if Text.isBlank text then [] else [⟨path, span, text⟩]
  | none => []

/-- The comment on an element that is part of another. -/
def under (start : List Int) (c : Comment) : Comment :=
  { c with path := start ++ c.path }

/-- A line number once if the span is on one line. -/
def spanNumbers (span : Span) : List Int :=
  let clip (n : UInt32) : Int := min n.toNat largestInt32
  if span.start.line = span.stop.line then
    [clip span.start.line, clip span.start.column, clip span.stop.column]
  else [clip span.start.line, clip span.start.column, clip span.stop.line, clip span.stop.column]

/-- A space begins every line, and a newline ends the last. -/
def leadingText (text : String) : String :=
  " " ++ Text.replace '\n' "\n " (Text.trim text) ++ "\n"

def location (c : Comment) : Location :=
  { path := c.path, span := spanNumbers c.span, leading := some (leadingText c.text) }

end Comment

namespace Comments

/-- Paths are compared number by number, and a path stands before those it begins. -/
def pathLe : List Int → List Int → Bool
  | [], _ => true
  | _ :: _, [] => false
  | a :: p, b :: q => if a < b then true else if b < a then false else pathLe p q

/-- The comments in order of their paths. -/
def locations (comments : List Comment) : List Location :=
  (comments.mergeSort fun a b => pathLe a.path b.path).map Comment.location

end Comments

/-! ## Parts of a draft -/

/-- A part of a descriptor with its description. -/
structure Described (α : Type) where
  element : α
  description : Option String := none
  span : Span := {}

/-- The comments on a list of elements, which stand under field number `number` of
what holds them. -/
def Described.comments {α : Type} (number : Int) (items : List (Described α)) : List Comment :=
  items.zipIdx.flatMap fun (item, i) =>
    Comment.describing [number, i] item.span item.description

structure EnumDraft where
  name : String
  description : Option String := none
  span : Span := {}
  values : List (Described EnumValueDescriptor) := []
  options : Option Options := none

structure ServiceDraft where
  name : String
  description : Option String := none
  span : Span := {}
  methods : List (Described MethodDescriptor) := []
  options : Option Options := none

structure MessageDraft where
  name : String
  description : Option String := none
  span : Span := {}
  fields : List (Described FieldDescriptor) := []
  oneofs : List (Described OneofDescriptor) := []
  /-- The places of the fields that get a oneof of their own, behind `oneofs`. -/
  synthetic : List Nat := []
  nested : List MessageDraft := []
  enums : List EnumDraft := []
  options : Option Options := none
deriving Inhabited

structure FileDraft where
  name : String
  package : String
  /-- The files this one needs, in any order, perhaps with itself among them. -/
  imports : List String := []
  messages : List MessageDraft := []
  enums : List EnumDraft := []
  services : List ServiceDraft := []

namespace EnumDraft

def descriptor (d : EnumDraft) : EnumDescriptor :=
  { name := some d.name, values := d.values.map Described.element, options := d.options }

def comments (d : EnumDraft) : List Comment :=
  Comment.describing [] d.span d.description ++ Described.comments 2 d.values

end EnumDraft

namespace ServiceDraft

def descriptor (d : ServiceDraft) : ServiceDescriptor :=
  { name := some d.name, methods := d.methods.map Described.element, options := d.options }

def comments (d : ServiceDraft) : List Comment :=
  Comment.describing [] d.span d.description ++ Described.comments 2 d.methods

end ServiceDraft

namespace MessageDraft

/-- Gives the field at place `i` a oneof of its own. -/
def lowerOptional (parts : List FieldDescriptor × List OneofDescriptor) (i : Nat) :
    List FieldDescriptor × List OneofDescriptor :=
  match parts.1[i]? with
  | none => parts
  | some f =>
    (parts.1.set i { f with oneofIndex := some parts.2.length },
      parts.2 ++ [{ name := some ("_" ++ f.nameText) }])

/-- Fields and oneofs, the synthetic ones behind the rest. -/
def lowered (fields : List (Described FieldDescriptor)) (oneofs : List (Described OneofDescriptor))
    (synthetic : List Nat) : List FieldDescriptor × List OneofDescriptor :=
  synthetic.foldl lowerOptional (fields.map Described.element, oneofs.map Described.element)

/-- Marks the field at place `i`, if there is one, as optional. -/
def markOptional (d : MessageDraft) (i : Nat) : MessageDraft :=
  match d.fields[i]? with
  | none => d
  | some f =>
    { d with
      fields := d.fields.set i { f with element := { f.element with proto3Optional := some true } }
      synthetic := d.synthetic ++ [i] }

mutual

def descriptor : MessageDraft → MessageDescriptor
  | { name, fields, oneofs, synthetic, nested, enums, options, .. } =>
    { name := some name
      fields := (lowered fields oneofs synthetic).1
      oneofs := (lowered fields oneofs synthetic).2
      nested := descriptors nested
      enums := enums.map EnumDraft.descriptor
      options }

def descriptors : List MessageDraft → List MessageDescriptor
  | [] => []
  | d :: rest => descriptor d :: descriptors rest

end

/-- The comments on enums, which stand under field number `number`. -/
def enumComments (number : Int) (enums : List EnumDraft) : List Comment :=
  enums.zipIdx.flatMap fun (e, i) => e.comments.map (Comment.under [number, i])

mutual

def comments : MessageDraft → List Comment
  | { description, span, fields, oneofs, nested, enums, .. } =>
    Comment.describing [] span description ++ Described.comments 2 fields ++
      Described.comments 8 oneofs ++ messageComments 3 0 nested ++ enumComments 4 enums

/-- The comments on messages, which stand under field number `number` from place `i`
on. -/
def messageComments (number : Int) (i : Nat) : List MessageDraft → List Comment
  | [] => []
  | d :: rest => (comments d).map (Comment.under [number, i]) ++ messageComments number (i + 1) rest

end

end MessageDraft

namespace FileDraft

def isEmpty (d : FileDraft) : Bool :=
  d.messages.isEmpty && d.enums.isEmpty && d.services.isEmpty

/-- Whether `file` is imported here, or is this file. -/
def hasImport (d : FileDraft) (file : String) : Bool :=
  file == d.name || d.imports.contains file

/-- The imports in ascending order, without the file itself. -/
def dependencies (d : FileDraft) : List String :=
  Sorted.names (d.imports.filter (· ≠ d.name))

def comments (d : FileDraft) : List Comment :=
  MessageDraft.messageComments 4 0 d.messages ++ MessageDraft.enumComments 5 d.enums ++
    d.services.zipIdx.flatMap fun (s, i) => s.comments.map (Comment.under [6, i])

def descriptor (d : FileDraft) : FileDescriptor :=
  { name := some d.name
    package := some d.package
    dialect := some "proto3"
    dependencies := d.dependencies
    messages := MessageDraft.descriptors d.messages
    enums := d.enums.map EnumDraft.descriptor
    services := d.services.map ServiceDraft.descriptor
    locations := if d.comments.isEmpty then none else some (Comments.locations d.comments) }

end FileDraft
end Schematic
