import Schematic.Command.Run

/-!
# The program

Reaches files on the disk, runs the command line and shows how it ended.
-/

namespace Schematic

namespace Disk

def fault : IO.Error → FileFault
  | .noFileOrDirectory .. => .missing
  | .inappropriateType _ code _ => if code = 21 then .isFolder else .notFolder
  | .invalidArgument _ code details => if code = 36 then .nameTooLong else .other details
  | e => .other (toString e)

def attempt {α : Type} (action : IO α) : IO (Except FileFault α) := do
  try
    return .ok (← action)
  catch e =>
    return .error (fault e)

/-- Whether something at `path` may lie in one of the folders, or on the way there. -/
def isNear (folders : List (List String)) (path : List String) : Bool :=
  folders.any fun folder => folder.isPrefixOf path || path.isPrefixOf folder

/-- The files below a folder by their paths from the top.  A folder's path ends in a
slash. -/
partial def entries (folders : List (List String)) (folder : String) (path : List String) :
    IO (List (String × Wire.Bytes)) := do
  let here := (← IO.currentDir) / folder
  if !(← here.isDir) then return []
  let mut found := #[]
  for entry in ← here.readDir do
    let inner := path ++ [entry.fileName]
    if isNear folders inner then
      let name := Text.join "/" inner
      if ← entry.path.isDir then
        let others ← entries folders (joinPath folder entry.fileName) inner
        found := found.push (name ++ "/", []) ++ others
      else
        found := found.push (name, (← IO.FS.readBinFile entry.path).toList)
  return found.toList

def access : FileAccess IO where
  read path := attempt do return (← IO.FS.readBinFile path).toList
  write path bytes := attempt (IO.FS.writeBinFile path ⟨bytes.toArray⟩)
  tree path folders := do return .ofEntries (← entries folders path [])

end Disk

def usage : String :=
  "Usage: j5c [--root <folder>] <command> [packages]\n\n" ++
  "Commands:\n" ++
  "  build --out <file> [--no-imports]   build packages and write their descriptors\n" ++
  "  lint [--context <lines>]            report what is wrong with packages\n" ++
  "  order                               show the order in which packages are built\n"

end Schematic

open Schematic in
def main (args : List String) : IO UInt32 := do
  let invocation := Invocation.ofArguments args
  let outcome ← invocation.perform Disk.access
  IO.print outcome.printed
  match invocation, outcome.failure with
  | .inform, _ => IO.print usage
  | .misuse, _ => IO.eprint usage
  | .run .., some failure => IO.eprintln failure.text
  | .run .., none => pure ()
  return outcome.status.toUInt32
