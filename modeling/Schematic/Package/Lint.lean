import Schematic.Package.Set

/-!
# Lint

A package is linted by converting and linking it source by source, noting what is
wrong where, and which imports nothing needs.
-/

namespace Schematic

/-- What a diagnostic of a lint report is about. -/
inductive LintFinding where
  | source (cause : SourceError)
  | build (cause : BuildError)
  | unusedImport (file : String)

def LintFinding.message : LintFinding → String
  | .source cause => cause.message
  | .build cause => cause.message
  | .unusedImport file => "import " ++ Text.quoted file ++ " is not used"

instance : ToString LintFinding := ⟨LintFinding.message⟩

structure FileDiagnostics where
  file : String
  text : Option String := none
  diagnostics : List (Diagnostic LintFinding) := []

structure LintReport where
  package : String
  files : List FileDiagnostics := []

namespace LintReport

def diagnostics (r : LintReport) : List (Diagnostic LintFinding) :=
  r.files.flatMap FileDiagnostics.diagnostics

def errorCount (r : LintReport) : Nat := (Diagnostics.errors r.diagnostics).length
def warningCount (r : LintReport) : Nat := (Diagnostics.warnings r.diagnostics).length
def hasErrors (r : LintReport) : Bool := 0 < r.errorCount
def isClean (r : LintReport) : Bool := r.files.all fun f => f.diagnostics.isEmpty

/-- All diagnostics, with excerpts of the files whose text is known. -/
def human (r : LintReport) (context : Nat) : String :=
  Text.join Diagnostics.separator <| (r.files.filter fun f => !f.diagnostics.isEmpty).map fun f =>
    match f.text with
    | some text => Diagnostics.human f.file text context f.diagnostics
    | none => Diagnostics.text f.diagnostics

end LintReport

namespace Workspace

variable (w : Workspace)

/-- A source with the names of its files, or with its errors. -/
structure LintedSource where
  source : SourceFile
  files : List String := []
  errors : List (Diagnostic SourceError) := []

def lintSource (source : SourceFile) : BuildM LintedSource := do
  match source.convert (w.resolveType (← get)) with
  | .ok files =>
    modify fun s => s.addFiles files
    return { source, files := files.map FileDescriptor.nameText }
  | .error errors => return { source, errors }

/-- An import that is not needed, where it is written if that is known. -/
def unusedImport (source : SourceFile) (file : String) : Diagnostic LintFinding :=
  match source.importSpan? file with
  | some span => (Diagnostic.ofPlace source.name span (.unusedImport file)).warn
  | none => (Diagnostic.inFile source.name { cause := .unusedImport file }).warn

/-- The diagnostics that linking a file of a source gives. -/
def lintFile (source : SourceFile) (file : String) :
    BuildM (List (Diagnostic LintFinding)) := do
  match ← (w.link file).attempt with
  | .ok linked => return linked.unusedImports.map (unusedImport source)
  | .error e => return [Diagnostic.inFile source.name { cause := .build e }]

def lintFiles (l : LintedSource) : BuildM FileDiagnostics := do
  let found ← l.files.mapM (w.lintFile l.source)
  return { file := l.source.name
           text := l.source.text
           diagnostics := l.errors.map (Diagnostic.map .source) ++ found.flatten }

/-- Lints a package.  What it needs is built first, and must be without errors. -/
def lint (name : String) : BuildM LintReport := do
  w.load name
  let p ← package name
  p.dependencies.forM fun dependency => do
    let _ ← w.build dependency
  let sources ← p.sources.mapM w.lintSource
  let files ← sources.mapM w.lintFiles
  return { package := name, files }

end Workspace
end Schematic
