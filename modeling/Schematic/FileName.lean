import Schematic.Text.Basic

/-!
# Names of files, packages and generated messages

The document `foo/v1/bar.j5s` produces `foo/v1/bar.j5s.proto`.  Its services and
topics go to `foo/v1/service/bar.p.j5s.proto` and `foo/v1/topic/bar.p.j5s.proto`,
in the packages `foo.v1.service` and `foo.v1.topic`.  `sourceOf?` reads the
document's path off any of the three.
-/

namespace Schematic
namespace FileName

def sourceEnding : String := ".j5s"
def serviceFolder : String := "service"
def topicFolder : String := "topic"

def mainFile (source : String) : String :=
  source ++ ".proto"

def subFile (source folder : String) : String :=
  match Text.cutLast? '/' source with
  | some (dir, base) =>
    dir ++ "/" ++ folder ++ "/" ++ (Text.withoutEnding? sourceEnding base).getD base ++ ".p.j5s.proto"
  | none => folder ++ "/" ++ (Text.withoutEnding? sourceEnding source).getD source ++ ".p.j5s.proto"

def subPackage (package folder : String) : String :=
  package ++ "." ++ folder

/-- The document a produced file comes from, if its name is of one of the three
forms. -/
def sourceOf? (file : String) : Option String :=
  match Text.withoutEnding? ".p.j5s.proto" file with
  | some path => do
    let (dir, stem) ← Text.cutLast? '/' path
    let (parent, folder) := (Text.cutLast? '/' dir).getD ("", dir)
    if folder = serviceFolder || folder = topicFolder then
      if parent = "" then some (stem ++ sourceEnding)
      else some (parent ++ "/" ++ stem ++ sourceEnding)
    else none
  | none => do
    let path ← Text.withoutEnding? ".proto" file
    if Text.endsWith sourceEnding path then some path else none

/-- `v` and one or more digits. -/
def isVersion (segment : String) : Bool :=
  match segment.toList with
  | 'v' :: digits => !digits.isEmpty && digits.all Char.isDigit
  | _ => false

/-- The segments up to and with the first version, if there is one. -/
def throughVersion? : List String → Option (List String)
  | [] => none
  | segment :: rest =>
    if isVersion segment then some [segment]
    else (throughVersion? rest).map (segment :: ·)

/-- The package a file belongs to: its folder, up to the first version segment. -/
def packageOf? (file : String) : Option String := do
  let (dir, _) ← Text.cutLast? '/' file
  let segments ← throughVersion? (Text.pieces '/' dir)
  some (Text.join "." segments)

/-- The package of a file.  Without a version segment it is the whole folder. -/
def packageFor (file : String) : String :=
  (packageOf? file).getD (Text.replace '/' "." (((Text.cutLast? '/' file).map Prod.fst).getD ""))

/-- The message that holds one entry of the map field `field`. -/
def mapEntry (field : String) : String :=
  Case.upperCamel field ++ "Entry"

end FileName
end Schematic
