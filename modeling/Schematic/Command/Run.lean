import Schematic.Catalog
import Schematic.Command.Arguments
import Schematic.Config
import Schematic.Descriptor.Decode
import Schematic.Descriptor.Encode
import Schematic.Package.Directory
import Schematic.Package.Lint
import Schematic.Text.Basic

/-!
# Running commands

A command opens the repository, works on its packages and perhaps writes a file.  What it
printed before it failed stays printed.
-/

namespace Schematic

/-- Why a command failed, with what caused it.  A cause may have no text of its own; then
nothing follows it. -/
structure Failure where
  message : String
  causes : List (Option String) := []

namespace Failure

def ofBuild (e : BuildError) : Failure :=
  match e with
  | .link _ cause => { message := e.message, causes := [some cause.message] }
  | .unreadable path .notText => { message := "reading " ++ path ++ ":" }
  | .unreadable _ fault => { message := e.message, causes := [some fault.message] }
  | .source file errors =>
    let isUndecodable : SourceError → Bool
      | .undecodable _ => true
      | _ => false
    { message := if errors.any fun d => isUndecodable d.cause then file ++ ":" else e.message }
  | _ => { message := e.message }

def ofUnreadConfig (path : String) (fault : FileFault) : Failure :=
  { message := "loading " ++ path
    causes := match fault with
      | .notText => [none]
      | _ => [some ("reading " ++ path ++ ": " ++ fault.message), some fault.message] }

def ofConfig (path : String) (e : ConfigError) : Failure :=
  { message := "loading " ++ path
    causes := match e with
      | .unreadable => [none]
      | _ => [some e.message] }

/-- Text with its first line behind a lead and its other lines as far to the right. -/
def indent (lead : String) (text : String) : String :=
  lead ++ Text.join ("\n" ++ Text.alignRight lead.length "") (Text.pieces '\n' text)

/-- The causes up to one without a text.  They have numbers if there are more than one. -/
def causeLines (isNumbered : Bool) : (number : Nat) → List (Option String) → List String
  | _, [] => []
  | _, none :: _ => []
  | number, some cause :: rest =>
    indent (if isNumbered then Text.alignRight 5 (toString number) ++ ": " else "    ") cause ::
      causeLines isNumbered (number + 1) rest

def text (f : Failure) : String :=
  let causes := if f.causes.isEmpty then []
    else ["", "Caused by:"] ++ causeLines (1 < f.causes.length) 0 f.causes
  Text.trimEnd (Text.join "\n" (("Error: " ++ f.message) :: causes))

end Failure

/-! ## Sessions -/

/-- What a command has printed, and the packages it has loaded. -/
structure Session where
  printed : String := ""
  packages : PackageSet := {}

abbrev SessionM := ExceptT Failure (StateM Session)

namespace Session

def print (line : String) : SessionM Unit :=
  modify fun s => { s with printed := s.printed ++ line ++ "\n" }

def building {α : Type} (step : BuildM α) : SessionM α := do
  let s ← get
  let (result, packages) := step.run.run s.packages
  set { s with packages }
  match result with
  | .ok a => return a
  | .error e => throw (.ofBuild e)

def countFiles (n : Nat) : String := "(" ++ toString n ++ " files)"

/-- The packages named, or all of the configuration if none is. -/
def targets (config : Config) (packages : List String) : SessionM (List String) := do
  let targets := if packages.isEmpty then config.packageNames else packages
  if targets.isEmpty then throw { message := "no packages configured in " ++ Config.fileName }
  return targets

def build (w : Workspace) (withImports : Bool) (targets : List String) :
    SessionM (List FileDescriptor) := do
  print ("Building " ++ Text.join ", " targets)
  let built ← building (w.buildAll targets)
  for package in built do
    print ("  → " ++ package.name ++ " " ++ countFiles package.files.length)
  let loaded := (← get).packages
  return if withImports then loaded.withImports built else BuiltPackage.flatten built

def lintPackage (w : Workspace) (context : Nat) (name : String) : SessionM LintReport := do
  let report ← building (w.lint name)
  if report.isClean then print ("ok " ++ name)
  else
    print ("Linting " ++ name)
    print (report.human context)
  return report

def lint (w : Workspace) (context : Nat) (targets : List String) : SessionM Unit := do
  let reports ← targets.mapM (lintPackage w context)
  let errors : Nat := reports.foldl (fun n r => n + r.errorCount) 0
  let warnings : Nat := reports.foldl (fun n r => n + r.warningCount) 0
  if 0 < errors then
    throw { message :=
      "lint failed: " ++ toString errors ++ " errors, " ++ toString warnings ++ " warnings" }
  if 0 < warnings then print ("info: " ++ toString warnings ++ " warnings")

def order (w : Workspace) (targets : List String) : SessionM Unit := do
  for (name, i) in (← building (w.buildOrder targets)).zipIdx do
    print (Text.alignRight 3 (toString (i + 1)) ++ ". " ++ name)

/-- A file that a command writes: where, and the descriptors. -/
structure Image where
  path : String
  files : List FileDescriptor

def perform (config : Config) (w : Workspace) : Command → SessionM (Option Image)
  | .build packages out withImports => do
    let files ← build w withImports (← targets config packages)
    return some ⟨out, files⟩
  | .lint packages context => do
    lint w context (← targets config packages)
    return none
  | .order packages => do
    order w (← targets config packages)
    return none

end Session

/-! ## Runs -/

/-- How a run ended. -/
structure Outcome where
  status : Nat
  printed : String := ""
  failure : Option Failure := none

namespace Command

variable {m : Type → Type} [Monad m] (access : FileAccess m)

def readConfig (root : String) : ExceptT Failure m Config := do
  let path := joinPath root Config.fileName
  let text : Except FileFault String := (← access.read path).bind FileFault.text
  match text with
  | .error fault => throw (.ofUnreadConfig path fault)
  | .ok text =>
    match Config.parse text with
    | .error e => throw (.ofConfig path e)
    | .ok config => return config

def readDependencies (path : String) : ExceptT Failure m DependencySet := do
  match ← access.read path with
  | .error fault => throw (.ofBuild (.unreadable path fault))
  | .ok bytes =>
    match FileDescriptor.decodeSet bytes with
    | none => throw (.ofBuild (.undecodable path))
    | some files => return .ofFiles files

/-- Opens the repository in a folder. -/
def openRepository (root : String) : ExceptT Failure m (Config × Workspace) := do
  let config ← readConfig access root
  let dependencies ← config.dependencies.mapM fun path =>
    readDependencies access (joinPath root path)
  let tree ← access.tree root (config.packageNames.filterMap Directory.folder?)
  let directory : Directory :=
    { tree, root, packages := config.packageNames, proseEnding := config.proseEnding }
  return (config, { repository := directory.repository, dependencies, catalog := Catalog.standard })

def failed (printed : String) (f : Failure) : Outcome := { status := 1, printed, failure := some f }

def run (root : String) (command : Command) : m Outcome := do
  match ← (openRepository access root).run with
  | .error f => return failed "" f
  | .ok (config, w) =>
    let (result, session) := (Session.perform config w command).run.run {}
    match result with
    | .error f => return failed session.printed f
    | .ok none => return { status := 0, printed := session.printed }
    | .ok (some image) =>
      match ← access.write image.path (FileDescriptor.encodeSet image.files) with
      | .error fault =>
        return failed session.printed
          { message := "writing " ++ image.path, causes := [some fault.message] }
      | .ok () =>
        return { status := 0
                 printed := session.printed ++ "wrote " ++ image.path ++ " " ++
                   Session.countFiles image.files.length ++ "\n" }

end Command

/-- Runs a command line. -/
def Invocation.perform {m : Type → Type} [Monad m] (access : FileAccess m) : Invocation → m Outcome
  | .run root command => command.run access root
  | .inform => return { status := 0 }
  | .misuse => return { status := 2 }

end Schematic
