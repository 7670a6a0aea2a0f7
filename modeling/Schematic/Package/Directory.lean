import Schematic.FileTree
import Schematic.Package.Workspace

/-!
# Packages in folders

The package `foo.v1` is the folder `foo/v1`.  Files in folders below it belong to it
too, unless their folder is a package of its own.  Files are read in the order of their
names, folders and files mixed.
-/

namespace Schematic

/-- Reads files that are no schema documents. -/
abbrev FileReader := (file text : String) → Except (List (Diagnostic SourceError)) ParsedFile

/-- Where the packages of a repository are and how they are read. -/
structure Directory where
  tree : FileTree
  /-- How paths of the tree start when they are shown. -/
  root : String := "."
  packages : List String := []
  proseEnding : String := ".md"
  reader : Option FileReader := none

namespace Directory

/-- The folder of a package, by its segments.  Where a part of the name starts with a
slash, there is none in the tree. -/
def folder? (package : String) : Option (List String) :=
  let parts := Text.pieces '.' package
  if parts.any (Text.startsWith "/") then none else some (parts.flatMap FileTree.segments)

/-- The folder of a package that is in the tree. -/
def folderIn? (d : Directory) (package : String) : Option (List String) :=
  (folder? package).filter d.tree.isFolder

def readText (d : Directory) (file : String) (bytes : Wire.Bytes) : Except BuildError String :=
  (FileFault.text bytes).mapError (.unreadable (joinPath d.root file))

/-- The place just before the end of what was read. -/
def decodeSpan (mark : Mark) : Span :=
  .at (mark.line - 1).toUInt32 (mark.column - 1).toUInt32

def decodeDiagnostic (file : String) (e : DecodeError) : Diagnostic SourceError :=
  match e with
  | .malformed mark => .ofPlace file (decodeSpan mark) (.undecodable e)
  | .mismatch => { cause := .undecodable e }

/-- A schema document.  Path and package are those of its place unless it says
otherwise. -/
def readDocument (package file text : String) : Except BuildError SourceFile :=
  match Document.parse text with
  | .error e => .error (.source file [decodeDiagnostic file e])
  | .ok d =>
    let d := { d with
      path := if d.path = "" then file else d.path
      package := if d.package = "" then package else d.package }
    (SourceFile.ofDocument d (some text)).mapError (.source file)

def readParsed (reader : FileReader) (file text : String) : Except BuildError SourceFile :=
  match reader file text with
  | .error errors => .error (.source file errors)
  | .ok parsed =>
    let parsed := { parsed with descriptor := { parsed.descriptor with name := some file } }
    .ok (.ofParsed parsed (some text))

/-- A file of a package, if it is a source. -/
def readSource (d : Directory) (package file : String) (bytes : Wire.Bytes) :
    Except BuildError (Option SourceFile) :=
  if FileName.packageOf? file ≠ some package then .ok none
  else if Text.endsWith FileName.sourceEnding file then do
    let text ← d.readText file bytes
    return some (← readDocument package file text)
  else if Text.endsWith ".proto" file then
    match d.reader with
    | none => .ok none
    | some reader => do
      let text ← d.readText file bytes
      return some (← readParsed reader file text)
  else .ok none

def sources (d : Directory) (package : String) : Except BuildError (List SourceFile) := do
  match d.folderIn? package with
  | none => throw (.packageNotFound package)
  | some folder =>
    let found ← (d.tree.filesIn folder).mapM fun (file, bytes) => d.readSource package file bytes
    return found.filterMap id

/-- Prose stands in the folder of the package itself. -/
def prose (d : Directory) (package : String) : Except BuildError (List ProseFile) := do
  match d.folderIn? package with
  | none => return []
  | some folder =>
    let files := (d.tree.filesIn folder).filter fun (file, _) =>
      (FileTree.segments file).length = folder.length + 1 && Text.endsWith d.proseEnding file
    files.mapM fun (file, bytes) => do
      return ⟨file, ← d.readText file bytes⟩

def contents (d : Directory) (package : String) : Except BuildError PackageContents := do
  let sources ← d.sources package
  let prose ← d.prose package
  return { sources, prose }

def repository (d : Directory) : Repository :=
  { packages := .ofList (d.packages.map fun p => (p, d.contents p)) }

end Directory
end Schematic
