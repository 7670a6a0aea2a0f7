import Schematic.Conversion.File

/-!
# Source files

A source file is a schema document or a file that is a descriptor already.  Both have
a summary.
-/

namespace Schematic

/-! ## The summary of a descriptor -/

namespace EnumDescriptor

/-- What stands before `UNSPECIFIED` in the name of the zero value. -/
def valuePrefix (e : EnumDescriptor) : String :=
  match e.values.find? fun v => v.number.getD 0 == 0 with
  | some v => (Text.withoutEnding? Build.unspecified v.nameText).getD ""
  | none => ""

def table (e : EnumDescriptor) : EnumTable :=
  ⟨e.valuePrefix, e.values.map fun v => (v.nameText, v.number.getD 0)⟩

end EnumDescriptor

mutual

/-- The types of a message and of what is nested in it.  Entries of maps are no types. -/
def MessageDescriptor.types (package file outer : String) : MessageDescriptor → List TypeRef
  | { name, nested, enums, options, .. } =>
    if ((options.bind Options.mapEntry?).getD false) then []
    else
      let inner := if outer = "" then name.getD "" else outer ++ "." ++ name.getD ""
      ⟨package, inner, file, .object none⟩ :: MessageDescriptor.typesList package file inner nested ++
        enums.map fun e => ⟨package, inner ++ "." ++ e.nameText, file, .enum e.table⟩

def MessageDescriptor.typesList (package file outer : String) :
    List MessageDescriptor → List TypeRef
  | [] => []
  | m :: rest =>
    MessageDescriptor.types package file outer m ++
      MessageDescriptor.typesList package file outer rest

end

namespace FileDescriptor

def types (f : FileDescriptor) : List TypeRef :=
  MessageDescriptor.typesList f.packageText f.nameText "" f.messages ++
    f.enums.map fun e => ⟨f.packageText, e.nameText, f.nameText, .enum e.table⟩

/-- The summary of a file that is a descriptor already. -/
def summary (f : FileDescriptor) : Summary :=
  { sourceFile := f.nameText
    package := f.packageText
    exports := .ofList (f.types.map fun t => (t.fullName, t))
    fileDependencies := f.dependencies
    produces := [f.nameText] }

end FileDescriptor

/-! ## Source files -/

/-- A descriptor as it was written, with names that need not be in full, and where its
imports stand. -/
structure ParsedFile where
  descriptor : FileDescriptor
  importSpans : Dict Span := {}

inductive SourceBody where
  | document (d : Document)
  | parsed (p : ParsedFile)

structure SourceFile where
  name : String
  summary : Summary
  body : SourceBody
  text : Option String := none

/-- Documentation that comes with a package. -/
structure ProseFile where
  name : String
  content : String
deriving DecidableEq, Repr

namespace SourceFile

def ofDocument (d : Document) (text : Option String) :
    Except (List (Diagnostic SourceError)) SourceFile := do
  let summary ← d.summary
  return ⟨d.path, summary, .document d, text⟩

def ofParsed (p : ParsedFile) (text : Option String) : SourceFile :=
  ⟨p.descriptor.nameText, p.descriptor.summary, .parsed p, text⟩

/-- Where an import is written, if that is known. -/
def importSpan? (s : SourceFile) (path : String) : Option Span :=
  match s.body with
  | .document d => (d.imports.find? fun i => i.path == some path).map Import.span
  | .parsed p => p.importSpans.get? path

/-- The names of the files of a source. -/
def fileNames (s : SourceFile) : List String :=
  match s.body with
  | .document d => d.produces d.nodes
  | .parsed p => [p.descriptor.nameText]

/-- The files of a source. -/
def convert (s : SourceFile) (resolver : Resolver) :
    Except (List (Diagnostic SourceError)) (List FileDescriptor) :=
  match s.body with
  | .document d => d.convert resolver
  | .parsed p => .ok [p.descriptor]

end SourceFile
end Schematic
