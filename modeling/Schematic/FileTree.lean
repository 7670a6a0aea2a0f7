import Schematic.Text.Basic
import Schematic.Wire.Basic

/-!
# Files and folders

A tree holds files by the segments of their paths.  A path is followed from the top of
the tree: it may name a folder that it leaves again, but not one that is not there.  It
may also lead to the folders above the tree, of which nothing else is known.
`FileAccess` is how a program reaches files; over a tree it is a state.
-/

namespace Schematic

/-- Why a file cannot be read or written. -/
inductive FileFault where
  | missing
  /-- The path goes on behind a file. -/
  | notFolder
  | isFolder
  | nameTooLong
  /-- A NUL stands in the path. -/
  | nulInName
  /-- The bytes of the file are no text. -/
  | notText
  | other (reason : String)
deriving DecidableEq, Repr

def FileFault.message : FileFault → String
  | .missing => "No such file or directory (os error 2)"
  | .notFolder => "Not a directory (os error 20)"
  | .isFolder => "Is a directory (os error 21)"
  | .nameTooLong => "File name too long (os error 36)"
  | .nulInName => "file name contained an unexpected NUL byte"
  | .notText => "stream did not contain valid UTF-8"
  | .other reason => reason

/-- The text that bytes encode. -/
def FileFault.text (bytes : Wire.Bytes) : Except FileFault String :=
  match String.fromUTF8? ⟨bytes.toArray⟩ with
  | some text => .ok text
  | none => .error .notText

/-- A path inside a folder.  A path from the top of everything stays as it is. -/
def joinPath (folder path : String) : String :=
  if folder = "" || Text.startsWith "/" path then path
  else if Text.endsWith "/" folder then folder ++ path
  else folder ++ "/" ++ path

/-- Files and folders by the segments of their paths. -/
structure FileTree where
  files : List (List String × Wire.Bytes) := []
  folders : List (List String) := []

namespace FileTree

/-- The segments of a path, without empty ones. -/
def segments (path : String) : List String :=
  (Text.pieces '/' path).filter fun s => s ≠ "" && s ≠ "."

/-- Where a file stands in the order in which folders are read. -/
def pathLe : List String → List String → Bool
  | [], _ => true
  | _ :: _, [] => false
  | a :: p, b :: q => if a < b then true else if b < a then false else pathLe p q

/-- Files in order. -/
def ofFiles (files : List (List String × Wire.Bytes)) (folders : List (List String)) : FileTree :=
  { files := files.mergeSort fun a b => pathLe a.1 b.1, folders }

/-- Files given by path.  A path that ends in a slash is an empty folder. -/
def ofEntries (entries : List (String × Wire.Bytes)) : FileTree :=
  let (folders, files) := entries.partition fun e => Text.endsWith "/" e.1
  ofFiles (files.map fun (path, bytes) => (segments path, bytes))
    (folders.map fun (path, _) => segments path)

/-- Whether a path leads to the top or to a folder above it. -/
def isAbove (path : List String) : Bool :=
  path.all (· = "..") || path = ["/"]

def isFolder (t : FileTree) (path : List String) : Bool :=
  isAbove path || t.folders.any (path.isPrefixOf ·) ||
    t.files.any fun (file, _) => path.isPrefixOf file && path.length < file.length

/-- The files inside a folder, in order. -/
def filesIn (t : FileTree) (path : List String) : List (String × Wire.Bytes) :=
  (t.files.filter fun (file, _) => path.isPrefixOf file && path.length < file.length).map
    fun (file, bytes) => (Text.join "/" file, bytes)

def get? (t : FileTree) (path : List String) : Option Wire.Bytes :=
  t.files.lookup path

/-! ## Following paths -/

/-- The bytes of the longest name of a file, and of the longest path. -/
def maxName : Nat := 255

def maxPath : Nat := 4095

/-- What no path may be, whatever the tree holds. -/
def pathFault? (path : String) : Option FileFault :=
  if path.toList.contains '\x00' then some .nulInName
  else if maxPath < path.utf8ByteSize then some .nameTooLong
  else if path = "" then some .missing
  else none

/-- Only a folder can be entered. -/
def enter (t : FileTree) (here : List String) : Except FileFault Unit :=
  if t.isFolder here then .ok ()
  else .error (if (t.get? here).isSome then .notFolder else .missing)

/-- One step along a path. -/
def step (t : FileTree) (here : List String) (segment : String) : Except FileFault (List String) := do
  t.enter here
  if segment = "" || segment = "." then return here
  else if segment = ".." then
    if here = ["/"] then return here
    else if isAbove here then return here ++ [".."]
    else return here.dropLast
  else if maxName < segment.utf8ByteSize then throw .nameTooLong
  else return here ++ [segment]

/-- Where the segments of a path lead, whether anything is there or not. -/
def follow (t : FileTree) (isAbsolute : Bool) (segments : List String) :
    Except FileFault (List String) :=
  segments.foldlM t.step (if isAbsolute then ["/"] else [])

def locate (t : FileTree) (path : String) : Except FileFault (List String) :=
  match pathFault? path with
  | some fault => .error fault
  | none => t.follow (Text.startsWith "/" path) (Text.pieces '/' path)

def read (t : FileTree) (path : String) : Except FileFault Wire.Bytes := do
  let file ← t.locate path
  match t.get? file with
  | some bytes => return bytes
  | none => throw (if t.isFolder file then .isFolder else .missing)

/-- Where a file may be written.  A path that ends in a slash is never a file's. -/
def locateNew (t : FileTree) (path : String) : Except FileFault (List String) := do
  if let some fault := pathFault? path then throw fault
  let segments := (Text.pieces '/' path).filter (· ≠ "")
  let folder ← t.follow (Text.startsWith "/" path) segments.dropLast
  t.enter folder
  match segments.getLast? with
  | none => throw .isFolder
  | some name =>
    if Text.endsWith "/" path then throw .isFolder
    else
      let file ← t.step folder name
      if t.isFolder file then throw .isFolder else return file

/-- Writes a file into a folder that is there. -/
def write (t : FileTree) (path : String) (bytes : Wire.Bytes) : Except FileFault FileTree := do
  let file ← t.locateNew path
  return ofFiles ((file, bytes) :: t.files.filter fun f => f.1 ≠ file) t.folders

/-- The tree that a folder is the top of. -/
def below (t : FileTree) (folder : String) : FileTree :=
  match t.locate folder with
  | .error _ => {}
  | .ok top =>
    let inside (path : List String) : Option (List String) :=
      if top.isPrefixOf path then some (path.drop top.length) else none
    { files := t.files.filterMap fun (path, bytes) => (inside path).map fun path => (path, bytes)
      folders := t.folders.filterMap inside }

end FileTree

/-- How a program reaches files. -/
structure FileAccess (m : Type → Type) where
  read : (path : String) → m (Except FileFault Wire.Bytes)
  write : (path : String) → (bytes : Wire.Bytes) → m (Except FileFault Unit)
  /-- The tree below a path.  It holds at least what is in the given folders. -/
  tree : (path : String) → (folders : List (List String)) → m FileTree

/-- Access to a tree that is kept in memory. -/
def FileTree.access : FileAccess (StateM FileTree) where
  read path := do return (← get).read path
  write path bytes := do
    match (← get).write path bytes with
    | .ok after => set after; return .ok ()
    | .error fault => return .error fault
  tree path _ := do return (← get).below path

end Schematic
