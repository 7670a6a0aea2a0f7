import Schematic.FileName
import Schematic.Yaml.Node

/-!
# Repository configuration

The configuration names the packages of a repository and the descriptor sets that they
depend on.  The last segment of a package name is a version.
-/

namespace Schematic

structure PackageEntry where
  name : String
  label : Option String := none
deriving DecidableEq, Repr

structure Config where
  version : Nat := 1
  packages : List PackageEntry := []
  /-- Paths of descriptor sets, from the root of the repository. -/
  dependencies : List String := []
  /-- How the names of prose files end. -/
  proseEnding : String := ".md"
deriving DecidableEq, Repr

inductive ConfigError where
  /-- The text is no configuration. -/
  | unreadable
  | unsupportedVersion (found : Nat)
  | unversionedPackage (name : String)
  | duplicatePackage (name : String)
deriving DecidableEq, Repr

def ConfigError.message : ConfigError → String
  | .unreadable => "not a configuration"
  | .unsupportedVersion found =>
    "unsupported configuration version " ++ toString found ++ ", supported: 1"
  | .unversionedPackage name =>
    "package " ++ name ++ " must end in a version segment, e.g. foo.v1"
  | .duplicatePackage name => "package " ++ name ++ " is listed more than once"

namespace Config

def fileName : String := "j5.yaml"

def packageNames (c : Config) : List String :=
  c.packages.map PackageEntry.name

/-! ## Decoding -/

def text? : Yaml → Option String
  | .scalar _ _ text => some text
  | _ => none

def isNull (text : String) : Bool := ["~", "null", "Null", "NULL"].contains text

/-- A text, or nothing for null.  A tag decides whether a plain scalar is null. -/
def optionalText? : Yaml → Option (Option String)
  | .scalar .plain none text => some (if text = "" || isNull text then none else some text)
  | .scalar .plain (some tag) text =>
    if tag ≠ Yaml.nullTag then some (some text)
    else if isNull text then some none
    else none
  | .scalar _ _ text => some (some text)
  | _ => none

/-- Nothing is an empty list. -/
def list? : Yaml → Option (List Yaml)
  | .list items => some items
  | .scalar .plain _ "" => some []
  | _ => none

/-- The digits of a number in some base. -/
def digits? (base : Nat) (digits : List Char) : Option Nat :=
  if digits.isEmpty then none
  else digits.foldlM (fun n c => do
    let d ← Yaml.hexDigit? c
    if d < base then return n * base + d else none) 0

/-- A number without a sign, or with a plus.  It has no zeros in front, and a mark if it
is not decimal. -/
def unsigned? (text : List Char) : Option Nat :=
  let text := match text with
    | '+' :: rest => rest
    | text => text
  match text with
  | '0' :: 'x' :: rest => digits? 16 rest
  | '0' :: 'o' :: rest => digits? 8 rest
  | '0' :: 'b' :: rest => digits? 2 rest
  | ['0'] => some 0
  | '0' :: _ => none
  | text => digits? 10 text

/-- Whether a scalar may be a number: a plain one, or a block of lines that is tagged as
one. -/
def isNumeric (style : Yaml.Style) (tag : Option String) : Bool :=
  style = .plain || (style = .literal && tag = some Yaml.intTag)

def version? : Yaml → Option Nat
  | .scalar style tag text =>
    if isNumeric style tag then (unsigned? text.toList).filter (· < Nat.pow 2 32) else none
  | _ => none

/-- The members of a map with these keys only, each at most once.  Nothing is an empty
map. -/
def members? (known : List String) : Yaml → Option (List (String × Yaml))
  | .map entries => do
    let members ← entries.mapM fun (key, value) => do return (← text? key, value)
    let names := members.map Prod.fst
    if names.all known.contains && names.eraseDups.length = names.length then return members
    else none
  | .scalar .plain _ "" => some []
  | _ => none

/-- A member, or a default if it is missing. -/
def member {α : Type} (members : List (String × Yaml)) (name : String) (default : α)
    (decode : Yaml → Option α) : Option α :=
  match members.lookup name with
  | none => some default
  | some value => decode value

def package? (value : Yaml) : Option PackageEntry := do
  let members ← members? ["name", "label"] value
  let name ← (members.lookup "name").bind text?
  let label ← member members "label" none optionalText?
  return { name, label }

def dependency? (value : Yaml) : Option String := do
  let members ← members? ["descriptor_set"] value
  (members.lookup "descriptor_set").bind text?

def decode? (value : Yaml) : Option Config := do
  let members ← members? ["version", "packages", "dependencies", "prose_suffix"] value
  let version ← member members "version" 1 version?
  let packages ← member members "packages" [] fun v => do (← list? v).mapM package?
  let dependencies ← member members "dependencies" [] fun v => do (← list? v).mapM dependency?
  let proseEnding ← member members "prose_suffix" ".md" text?
  return { version, packages, dependencies, proseEnding }

/-! ## Validation -/

def isVersioned (package : String) : Bool :=
  (Text.pieces '.' package).getLast?.any FileName.isVersion

/-- Checks package names in turn.  `seen` holds those before. -/
def checkPackages : (seen : List String) → List String → Except ConfigError Unit
  | _, [] => .ok ()
  | seen, name :: rest =>
    if !isVersioned name then .error (.unversionedPackage name)
    else if seen.contains name then .error (.duplicatePackage name)
    else checkPackages (name :: seen) rest

def validate (c : Config) : Except ConfigError Unit :=
  if c.version ≠ 1 then .error (.unsupportedVersion c.version)
  else checkPackages [] c.packageNames

/-- Reads a configuration. -/
def parse (text : String) : Except ConfigError Config := do
  match (Yaml.read text).bind decode? with
  | none => throw .unreadable
  | some config =>
    validate config
    return config

end Config
end Schematic
