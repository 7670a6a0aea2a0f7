import Schematic.Link.File
import Schematic.Package.Workspace

/-!
# Package sets

A package set holds all that building has found out so far: the packages loaded, the
files found, their symbols, and the linked files.  A package is first summarized, then
its dependencies are resolved, and then it is built.  What was found out before a
failure is kept.

Recursion over packages and files is bounded by how many there are: a chain of
dependencies or of imports that is any longer would hold a name twice.
-/

namespace Schematic

inductive PackageState where
  /-- The sources are read, and the names of the dependencies known. -/
  | summarized
  /-- All direct dependencies are loaded, and there is no cycle. -/
  | resolved
  /-- The files are converted and linked. -/
  | built
deriving DecidableEq, Repr

/-- How far a package has come. -/
def PackageState.rank : PackageState → Nat
  | .summarized => 0
  | .resolved => 1
  | .built => 2

structure Package where
  state : PackageState := .summarized
  sources : List SourceFile := []
  prose : List ProseFile := []
  /-- The types of the package, under their full names. -/
  exports : Dict TypeRef := {}
  dependencies : List String := []
  /-- Whether all sources are converted. -/
  materialized : Bool := false

/-- A package with its linked files and those of the packages it needs. -/
structure BuiltPackage where
  name : String
  files : List LinkedFile := []
  prose : List ProseFile := []
  dependencies : List BuiltPackage := []

structure PackageSet where
  packages : Dict Package := {}
  built : Dict BuiltPackage := {}
  files : Dict FileDescriptor := {}
  symbols : Symbols := {}
  linked : Dict LinkedFile := {}
  /-- The files being linked, the outermost first. -/
  linking : List String := []

/-- A step of building, which keeps the package set also when it fails. -/
abbrev BuildM := ExceptT BuildError (StateM PackageSet)

namespace BuildM

variable {α : Type}

def lift : Except BuildError α → BuildM α
  | .ok a => pure a
  | .error e => throw e

/-- Goes on also when a step fails. -/
def attempt (step : BuildM α) : BuildM (Except BuildError α) :=
  ExceptT.lift step.run

end BuildM

namespace PackageSet

def state? (s : PackageSet) (name : String) : Option PackageState :=
  (s.packages.get? name).map Package.state

/-- Changes a package that is in the set. -/
def update (s : PackageSet) (name : String) (f : Package → Package) : PackageSet :=
  match s.packages.get? name with
  | some p => { s with packages := s.packages.insert name (f p) }
  | none => s

/-- The files of a source, as found. -/
def addFiles (s : PackageSet) (files : List FileDescriptor) : PackageSet :=
  { s with files := s.files.insertAll (files.map fun f => (f.nameText, f)) }

end PackageSet

namespace Repository

variable (r : Repository)

/-- The package of an imported file, if it is local. -/
def importedPackage (file : String) : Except BuildError (Option String) := do
  let (package, isLocal) ← r.packageOf file
  return if isLocal then some package else none

/-- The local packages that a source needs. -/
def sourceDependencies (source : SourceFile) : Except BuildError (List String) := do
  let imported ← source.summary.fileDependencies.mapM r.importedPackage
  return source.summary.packageDependencies.filter r.isLocal ++ imported.filterMap id

/-- Reads a package and finds out what it needs. -/
def summarize (name : String) : Except BuildError Package := do
  let contents ← r.contents name
  let dependencies ← contents.sources.mapM r.sourceDependencies
  return { sources := contents.sources
           prose := contents.prose
           exports := Dict.ofList (contents.sources.flatMap fun s => s.summary.exports.entries)
           dependencies := Sorted.names (dependencies.flatten.filter (· ≠ name)) }

end Repository

namespace Workspace

variable (w : Workspace)

/-! ## Loading -/

/-- The package of that name, which must be loaded. -/
def package (name : String) : BuildM Package := do
  match (← get).packages.get? name with
  | some p => return p
  | none => throw (.packageNotFound name)

/-- The package of that name, summarized if it was not. -/
def summarized (name : String) : BuildM Package := do
  match (← get).packages.get? name with
  | some p => return p
  | none =>
    let p ← BuildM.lift (w.repository.summarize name)
    modify fun s => { s with packages := s.packages.insert name p }
    return p

/-- Whether the dependencies of a package are resolved already. -/
def isResolved (name : String) : BuildM Bool := do
  return ((← get).state? name).any fun s => PackageState.resolved.rank ≤ s.rank

/-- Loads a package and what it needs. -/
def loadFrom : (depth : Nat) → LoadChain → String → BuildM Unit
  | 0, chain, name => throw (.circular ⟨chain.packages, name⟩)
  | depth + 1, chain, name => do
    let chain ← BuildM.lift ((chain.enter name).mapError .circular)
    if ← isResolved name then return ()
    else if w.repository.isLocal name then
      let p ← w.summarized name
      p.dependencies.forM (loadFrom depth chain)
      modify fun s => s.update name fun p => { p with state := .resolved }
    else throw (.packageNotFound name)

/-- A chain holds local packages, each once, and at most one other name. -/
def load (name : String) : BuildM Unit :=
  w.loadFrom (w.repository.packages.size + 2) {} name

/-! ## Types -/

/-- The type in the first file of the package that has it. -/
def typeIn (full : String) (files : List FileDescriptor) : Option TypeRef :=
  files.findSome? fun f => f.summary.exports.get? full

/-- The files of a package that the dependency sets have and can read. -/
def dependencyFiles (package : String) : List FileDescriptor :=
  w.dependencies.flatMap fun d =>
    (d.list (Text.replace '.' "/" package)).filterMap fun name =>
      match d.get? name with
      | .ok (some f) => if f.packageText = package then some f else none
      | _ => none

/-- Finds a type: of a local package among its exports, of any other in the dependency
sets and then in the catalog. -/
def resolveType (s : PackageSet) : Resolver := fun package name =>
  let full := package ++ "." ++ name
  match s.packages.get? package with
  | some p =>
    match p.exports.get? full with
    | some found => .ok found
    | none => .error (.typeNotFound package name)
  | none =>
    if w.repository.isLocal package then .error (.packageNotFound package)
    else
      let files := w.dependencyFiles package ++ w.catalog.filesInPackage package
      match typeIn full files with
      | some found => .ok found
      | none =>
        if files.isEmpty then .error (.packageNotFound package)
        else .error (.typeNotFound package name)

/-! ## Files -/

/-- Converts a source and notes the files that come of it. -/
def materializeSource (source : SourceFile) : BuildM Unit := do
  match source.convert (w.resolveType (← get)) with
  | .ok files => modify fun s => s.addFiles files
  | .error errors => throw (.source source.name errors)

/-- Converts all sources of a loaded package. -/
def materialize (name : String) : BuildM Unit := do
  let p ← package name
  if p.materialized then return ()
  p.sources.forM w.materializeSource
  modify fun s => s.update name fun p => { p with materialized := true }

/-- A file of the first dependency set that has it. -/
def dependencyFile (file : String) : List DependencySet → Except BuildError (Option FileDescriptor)
  | [] => .ok none
  | d :: rest => do
    match ← d.get? file with
    | some f => return some f
    | none => dependencyFile file rest

/-- A file that no local package has. -/
def foreignFile (file : String) : BuildM FileDescriptor := do
  match ← BuildM.lift (dependencyFile file w.dependencies) with
  | some f => note f
  | none =>
    match w.catalog.get? file with
    | some f => note f
    | none => throw (.fileNotFound file)
where
  note (f : FileDescriptor) : BuildM FileDescriptor := do
    modify fun s => { s with files := s.files.insert file f }
    return f

/-- Finds a file: one found before, one of a local package, or a foreign one. -/
def resolveFile (file : String) : BuildM FileDescriptor := do
  match (← get).files.get? file with
  | some f => return f
  | none =>
    let (package, isLocal) ← BuildM.lift (w.repository.packageOf file)
    if isLocal then
      w.load package
      w.materialize package
      match (← get).files.get? file with
      | some f => return f
      | none => throw (.fileNotFound file)
    else w.foreignFile file

/-! ## Linking -/

/-- Imports a file into the table of symbols and links it. -/
def linkAlone (file : String) (f : FileDescriptor) : BuildM LinkedFile := do
  match (← get).symbols.importFile f with
  | .error cause => throw (.link file cause)
  | .ok symbols =>
    modify fun s => { s with symbols }
    match symbols.link f with
    | .error cause => throw (.link file cause)
    | .ok linked =>
      modify fun s => { s with linked := s.linked.insert file linked }
      return linked

/-- Does something while a file counts as being linked. -/
def whileLinking {α : Type} (file : String) (step : BuildM α) : BuildM α := do
  modify fun s => { s with linking := s.linking ++ [file] }
  let outcome ← step.attempt
  modify fun s => { s with linking := s.linking.dropLast }
  BuildM.lift outcome

/-- Links a file after the files it imports.  A file linked before stays as it is. -/
def linkFrom : (depth : Nat) → String → BuildM LinkedFile
  | 0, file => do throw (.importCycle ((← get).linking ++ [file]))
  | depth + 1, file => do
    match (← get).linked.get? file with
    | some linked => return linked
    | none =>
      if (← get).linking.contains file then throw (.importCycle ((← get).linking ++ [file]))
      else
        let f ← w.resolveFile file
        whileLinking file do
          f.dependencies.forM fun dependency => do
            let _ ← linkFrom depth dependency
          linkAlone file f

/-- Files being linked are all different, and each could be found. -/
def link (file : String) : BuildM LinkedFile :=
  w.linkFrom (w.fileNames.length + 2) file

/-! ## Building -/

/-- Builds a loaded package and what it needs. -/
def buildFrom : (depth : Nat) → String → BuildM BuiltPackage
  | 0, name => throw (.packageNotFound name)
  | depth + 1, name => do
    match (← get).built.get? name with
    | some built => return built
    | none =>
      let p ← package name
      let dependencies ← p.dependencies.mapM (buildFrom depth)
      w.materialize name
      let files ← (p.sources.flatMap fun s => s.summary.produces).mapM w.link
      let built : BuiltPackage := { name, files, prose := p.prose, dependencies }
      modify fun s =>
        { s.update name fun p => { p with state := .built } with built := s.built.insert name built }
      return built

def build (name : String) : BuildM BuiltPackage := do
  w.buildFrom ((← get).packages.size + 1) name

/-- Loads and builds a package. -/
def compile (name : String) : BuildM BuiltPackage := do
  w.load name
  w.build name

/-! ## Order -/

/-- The packages that are reached from a stack of names, each with what it needs. -/
def collect (packages : Dict Package) : (steps : Nat) → (seen stack : List String) →
    Except BuildError (List Order.Item)
  | _, _, [] => .ok []
  | 0, _, _ :: _ => .ok []
  | steps + 1, seen, name :: rest =>
    if seen.contains name then collect packages steps seen rest
    else
      match packages.get? name with
      | none => .error (.packageNotFound name)
      | some p => do
        let items ← collect packages steps (name :: seen) (p.dependencies.reverse ++ rest)
        return ⟨name, p.dependencies⟩ :: items

/-- Every package is taken from the stack at most once for each time it is named. -/
def collectSteps (packages : Dict Package) (names : List String) : Nat :=
  names.length + packages.values.foldr (fun p n => p.dependencies.length + n) 0

/-- The packages that `names` need, each after what it needs itself. -/
def buildOrder (names : List String) : BuildM (List String) := do
  names.forM w.load
  let packages := (← get).packages
  match collect packages (collectSteps packages names) [] names with
  | .error cause => throw cause
  | .ok items =>
    match Order.sort items with
    | .ok order => return order
    | .error cause => throw (.unordered cause)

/-- Builds packages and all that they need, each after what it needs itself. -/
def buildAll (names : List String) : BuildM (List BuiltPackage) := do
  let order ← w.buildOrder names
  order.mapM w.build

end Workspace

/-! ## Sets of files -/

/-- Files by name, the first of each name only. -/
def FileDescriptor.distinct (seen : List String) : List FileDescriptor → List FileDescriptor
  | [] => []
  | f :: rest =>
    if seen.contains f.nameText then distinct seen rest
    else f :: distinct (f.nameText :: seen) rest

mutual

/-- The files of a package behind those of the packages it needs. -/
def BuiltPackage.allFiles : BuiltPackage → List FileDescriptor
  | { files, dependencies, .. } =>
    BuiltPackage.allFilesList dependencies ++ files.map LinkedFile.descriptor

def BuiltPackage.allFilesList : List BuiltPackage → List FileDescriptor
  | [] => []
  | p :: rest => BuiltPackage.allFiles p ++ BuiltPackage.allFilesList rest

end

/-- The files of packages and of what they need, each once. -/
def BuiltPackage.flatten (packages : List BuiltPackage) : List FileDescriptor :=
  FileDescriptor.distinct [] (BuiltPackage.allFilesList packages)

namespace PackageSet

/-- Files already taken, and the files so far in order. -/
structure Visit where
  seen : List String := []
  files : List FileDescriptor := []

/-- Takes a linked file behind all that it imports. -/
def visit (s : PackageSet) : (depth : Nat) → Visit → String → Visit
  | 0, v, _ => v
  | depth + 1, v, name =>
    if v.seen.contains name then v
    else
      let v := { v with seen := name :: v.seen }
      match s.linked.get? name with
      | none => v
      | some linked =>
        let v := linked.descriptor.dependencies.foldl (visit s depth) v
        { v with files := v.files ++ [linked.descriptor] }

/-- The files of packages and all that they import, each once and behind its imports. -/
def withImports (s : PackageSet) (packages : List BuiltPackage) : List FileDescriptor :=
  ((BuiltPackage.flatten packages).foldl
    (fun v f => s.visit (s.linked.size + 2) v f.nameText) {}).files

end PackageSet
end Schematic
