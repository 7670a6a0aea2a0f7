import Schematic.Text.Basic

/-!
# Command lines

A command line names one command with its options and packages.  The folder of the
repository may be given before the command or behind its name, and counts as given
there.  No option is given twice in one place.
-/

namespace Schematic

inductive Command where
  /-- Builds packages and writes their descriptors to a file. -/
  | build (packages : List String) (out : String) (withImports : Bool)
  /-- Reports what is wrong with packages, with some lines around each place. -/
  | lint (packages : List String) (context : Nat)
  /-- Shows the order in which packages are built. -/
  | order (packages : List String)
deriving DecidableEq, Repr

inductive Invocation where
  | run (root : String) (command : Command)
  /-- Help or the version was asked for. -/
  | inform
  | misuse
deriving DecidableEq, Repr

namespace Arguments

/-- What ends the reading of a command line before a command is known. -/
inductive Stop where
  | inform
  | misuse

abbrev Reading := Except Stop

inductive CommandName where
  | build
  | lint
  | order
deriving DecidableEq, Repr

def commandName? : String → Option CommandName
  | "build" => some .build
  | "lint" => some .lint
  | "order" => some .order
  | _ => none

inductive OptionName where
  | root
  | out
  | context
  | noImports
deriving DecidableEq, Repr

def OptionName.takesValue (o : OptionName) : Bool := o ≠ .noImports

/-- The options of a command, or those before it. -/
def longOption? (command : Option CommandName) (name : String) : Option OptionName :=
  match command, name with
  | _, "root" => some .root
  | some .build, "out" => some .out
  | some .build, "no-imports" => some .noImports
  | some .lint, "context" => some .context
  | _, _ => none

/-- What was given in one place, in order. -/
structure Given where
  options : List (OptionName × String) := []
  packages : List String := []

namespace Given

def option? (g : Given) (o : OptionName) : Option String := g.options.lookup o

/-- A count in decimal digits, perhaps behind a plus. -/
def count? (text : String) : Option Nat :=
  let digits := match text.toList with
    | '+' :: rest => rest
    | digits => digits
  let count := digits.foldl (fun n c => n * 10 + (c.toNat - '0'.toNat)) 0
  if digits.isEmpty || !digits.all Char.isDigit || Nat.pow 2 64 ≤ count then none else some count

def accepts (o : OptionName) (value : String) : Bool :=
  match o with
  | .root => value ≠ ""
  | .out => value ≠ ""
  | .context => (count? value).isSome
  | .noImports => true

def add (g : Given) (o : OptionName) (value : String) : Reading Given :=
  if (g.option? o).isSome || !accepts o value then .error .misuse
  else .ok { g with options := g.options ++ [(o, value)] }

end Given

/-- Whether a word is an option rather than a value. -/
def isOption (word : String) : Bool :=
  Text.startsWith "-" word && word ≠ "-"

/-- An option as it is written: which, and the value if it is in the same word. -/
def optionIn (command : Option CommandName) (word : String) : Reading (OptionName × Option String) :=
  match Text.withoutStart? "--" word with
  | some long =>
    let (name, value) := match Text.cutFirst? '=' long with
      | some (name, value) => (name, some value)
      | none => (long, none)
    match longOption? command name with
    | some o => if o.takesValue || value.isNone then .ok (o, value) else .error .misuse
    | none =>
      if value.isNone && (name = "help" || (name = "version" && command.isNone)) then .error .inform
      else .error .misuse
  | none =>
    match word.toList.drop 1 with
    | 'h' :: _ => .error .inform
    | 'V' :: _ => .error (if command.isNone then .inform else .misuse)
    | 'o' :: rest =>
      if command ≠ some .build then .error .misuse
      else match rest with
        | [] => .ok (.out, none)
        | '=' :: value => .ok (.out, some (String.ofList value))
        | value => .ok (.out, some (String.ofList value))
    | _ => .error .misuse

/-- An option, and the option that waits for its value in the next word. -/
def takeOption (command : Option CommandName) (g : Given) (word : String) :
    Reading (Given × Option OptionName) := do
  let (o, value) ← optionIn command word
  match value with
  | some value => return (← g.add o value, none)
  | none => if o.takesValue then return (g, some o) else return (← g.add o "", none)

/-- The value of an option that waits for it. -/
def takeValue (g : Given) (o : OptionName) (word : String) : Reading Given :=
  if isOption word then .error .misuse else g.add o word

/-- What follows the name of a command. -/
def readRest (command : CommandName) : Given → (waiting : Option OptionName) → List String →
    Reading Given
  | g, none, [] => .ok g
  | _, some _, [] => .error .misuse
  | g, some o, word :: rest => do readRest command (← takeValue g o word) none rest
  | g, none, word :: rest =>
    if word = "--" then .ok { g with packages := g.packages ++ rest }
    else if isOption word then do
      let (g, waiting) ← takeOption (some command) g word
      readRest command g waiting rest
    else readRest command { g with packages := g.packages ++ [word] } none rest

/-- Help may be asked for one command. -/
def readHelp : List String → Stop
  | [] => .inform
  | [topic] => if topic = "help" || (commandName? topic).isSome then .inform else .misuse
  | _ => .misuse

/-- What precedes the name of a command, the name, and what follows. -/
def readStart : Given → (waiting : Option OptionName) → List String →
    Reading (Given × CommandName × List String)
  | _, _, [] => .error .misuse
  | g, some o, word :: rest => do readStart (← takeValue g o word) none rest
  | g, none, word :: rest =>
    if isOption word then do
      let (g, waiting) ← takeOption none g word
      readStart g waiting rest
    else if word = "help" then .error (readHelp rest)
    else
      match commandName? word with
      | some command => .ok (g, command, rest)
      | none => .error .misuse

def readCommand (command : CommandName) (g : Given) : Reading Command :=
  match command with
  | .build =>
    match g.option? .out with
    | some out => .ok (.build g.packages out (g.option? .noImports).isNone)
    | none => .error .misuse
  | .lint => .ok (.lint g.packages (((g.option? .context).bind Given.count?).getD 2))
  | .order => .ok (.order g.packages)

/-- Where the repository is unless a command line says it. -/
def defaultRoot : String := "."

def read (words : List String) : Reading (String × Command) := do
  let (before, command, rest) ← readStart {} none words
  let after ← readRest command {} none rest
  let root := (after.option? .root).getD ((before.option? .root).getD defaultRoot)
  return (root, ← readCommand command after)

end Arguments

/-- Reads a command line. -/
def Invocation.ofArguments (words : List String) : Invocation :=
  match Arguments.read words with
  | .ok (root, command) => .run root command
  | .error .inform => .inform
  | .error .misuse => .misuse

end Schematic
