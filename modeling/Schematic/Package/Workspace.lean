import Schematic.Catalog
import Schematic.Conversion.Error
import Schematic.FileTree
import Schematic.Link.Symbols
import Schematic.Order
import Schematic.Package.Source

/-!
# What packages are built from

The packages of the repository itself, sets of files built elsewhere, and the catalog
of well-known files.  Loading a package loads what it depends on, so at any time a chain
of packages is under way, outermost first.  A package may join the chain only once.
-/

namespace Schematic

/-! ## The chain of packages being loaded -/

/-- Loading `dependency` from the end of `chain` would come back to a package
already under way. -/
structure CircularDependency where
  chain : List String
  dependency : String
deriving DecidableEq, Repr

def CircularDependency.message (e : CircularDependency) : String :=
  "circular dependency: " ++ Text.join " -> " e.chain ++ " -> " ++ e.dependency

structure LoadChain where
  packages : List String := []
deriving DecidableEq, Repr

/-- The chain for loading `package` from here. -/
def LoadChain.enter (chain : LoadChain) (package : String) : Except CircularDependency LoadChain :=
  if chain.packages.contains package then .error ⟨chain.packages, package⟩
  else .ok ⟨chain.packages ++ [package]⟩

/-! ## Errors -/

inductive BuildError where
  | circular (cause : CircularDependency)
  | unordered (cause : Order.Error)
  | packageNotFound (package : String)
  | fileNotFound (file : String)
  /-- Files that import each other, ending with one that stands earlier too. -/
  | importCycle (chain : List String)
  | source (file : String) (errors : List (Diagnostic SourceError))
  | link (file : String) (cause : LinkError)
  | unreadable (path : String) (fault : FileFault)
  /-- A file that is no set of descriptors. -/
  | undecodable (path : String)

def BuildError.message : BuildError → String
  | .circular cause => cause.message
  | .unordered cause => cause.message
  | .packageNotFound package => "package " ++ package ++ " not found"
  | .fileNotFound file => "file " ++ file ++ " not found in any source"
  | .importCycle chain => "import cycle: " ++ Text.join " -> " chain
  | .source file errors => file ++ ":\n" ++ Diagnostics.text errors
  | .link file cause => "linking " ++ file ++ ": " ++ cause.message
  | .unreadable path fault => "reading " ++ path ++ ": " ++ fault.message
  | .undecodable path => "decoding descriptor set " ++ path ++ ":"

instance : ToString BuildError := ⟨BuildError.message⟩

/-! ## Repositories, dependency sets and the catalog -/

structure PackageContents where
  sources : List SourceFile := []
  prose : List ProseFile := []

/-- The packages of a repository, each with its files or the reason why they cannot be
had. -/
structure Repository where
  packages : Dict (Except BuildError PackageContents) := {}
  /-- The package that a file belongs to, and whether that is one of these. -/
  packageOf : String → Except BuildError (String × Bool) := fun file =>
    .ok (FileName.packageFor file, packages.contains (FileName.packageFor file))

namespace Repository

def isLocal (r : Repository) (package : String) : Bool :=
  r.packages.contains package

def list (r : Repository) : List String :=
  r.packages.keys

def contents (r : Repository) (package : String) : Except BuildError PackageContents :=
  (r.packages.get? package).getD (.error (.packageNotFound package))

end Repository

/-- What a dependency set has under a name. -/
inductive DependencyFile where
  | present (f : FileDescriptor)
  | absent
  | unreadable (cause : BuildError)

/-- Files built elsewhere.  Of two entries with one name the first counts. -/
structure DependencySet where
  entries : List (String × DependencyFile) := []

namespace DependencySet

def ofFiles (files : List FileDescriptor) : DependencySet :=
  ⟨(Dict.ofList (files.map fun f => (f.nameText, DependencyFile.present f))).entries⟩

/-- The names that start with `root`. -/
def list (d : DependencySet) (root : String) : List String :=
  (d.entries.map Prod.fst).filter (Text.startsWith root)

def get? (d : DependencySet) (file : String) : Except BuildError (Option FileDescriptor) :=
  match d.entries.lookup file with
  | some (.present f) => .ok (some f)
  | some (.unreadable cause) => .error cause
  | some .absent => .ok none
  | none => .ok none

end DependencySet

structure Workspace where
  repository : Repository := {}
  /-- Dependency sets, in the order in which they are asked. -/
  dependencies : List DependencySet := []
  catalog : Catalog := Catalog.standard

namespace Workspace

/-- All files that can ever be found: those that sources produce, those of the
dependency sets, and those of the catalog. -/
def fileNames (w : Workspace) : List String :=
  (w.repository.packages.values.flatMap fun
    | .ok contents => contents.sources.flatMap SourceFile.fileNames
    | .error _ => []) ++
    w.dependencies.flatMap (fun d => d.entries.map Prod.fst) ++ w.catalog.fileNames

end Workspace
end Schematic
