import Schematic.Text.Basic

/-!
# Places and diagnostics

A diagnostic is a cause with, where known, the place in a file that it is about.  Lines
and columns are counted from 0, and shown counted from 1.  `human` shows the lines up to
that place and a caret under the column.
-/

namespace Schematic

/-! ## Places in a document -/

structure Position where
  line : UInt32 := 0
  column : UInt32 := 0
deriving DecidableEq, Repr, Inhabited

structure Span where
  start : Position := {}
  stop : Position := {}
deriving DecidableEq, Repr, Inhabited

/-- The empty span at one place. -/
def Span.at (line column : UInt32) : Span :=
  ⟨⟨line, column⟩, ⟨line, column⟩⟩

/-- Its four numbers, in the order in which spans are compared. -/
def Span.key (s : Span) : List Nat :=
  [s.start.line.toNat, s.start.column.toNat, s.stop.line.toNat, s.stop.column.toNat]

/-! ## Diagnostics -/

inductive Severity where
  | error | warning
deriving DecidableEq, Repr

structure Place where
  file : String
  span : Span := {}
deriving DecidableEq, Repr

structure Diagnostic (ε : Type) where
  place : Option Place := none
  severity : Severity := .error
  /-- What was being worked on. -/
  context : Option String := none
  cause : ε
deriving DecidableEq, Repr

namespace Place

/-- The place counted from 1, in the words that lines and columns are kept in. -/
def text (p : Place) : String :=
  p.file ++ ":" ++ toString (p.span.start.line + 1).toNat ++ ":" ++
    toString (p.span.start.column + 1).toNat

end Place

namespace Diagnostic

variable {ε δ : Type}

def ofPlace (file : String) (span : Span) (cause : ε) : Diagnostic ε :=
  { place := some ⟨file, span⟩, cause }

def warn (d : Diagnostic ε) : Diagnostic ε :=
  { d with severity := .warning }

def isWarning (d : Diagnostic ε) : Bool :=
  d.severity == .warning

def isError (d : Diagnostic ε) : Bool :=
  d.severity == .error

def map (f : ε → δ) (d : Diagnostic ε) : Diagnostic δ :=
  { place := d.place, severity := d.severity, context := d.context, cause := f d.cause }

/-- Fills in the file of a diagnostic that was raised without one.  With no place at
all, it is placed at the start of the file. -/
def inFile (file : String) (d : Diagnostic ε) : Diagnostic ε :=
  match d.place with
  | none => { d with place := some { file } }
  | some p => if p.file = "" then { d with place := some { p with file } } else d

/-- The diagnostic in one line: place, severity if a warning, context and cause. -/
def text [ToString ε] (d : Diagnostic ε) : String :=
  (match d.place with | some p => p.text ++ ": " | none => "") ++
    (if d.isWarning then "warning: " else "") ++
    (match d.context with | some c => c ++ ": " | none => "") ++ toString d.cause

/-- The lines of a file up to a place, at most `context` of them, and the caret. -/
def excerpt (lines : List String) (context : Nat) (start : Position) : String :=
  let line := start.line.toNat
  let first := line + 1 - context
  let width := (toString (line + 1)).length
  let shown := (lines.zipIdx.take (line + 1)).drop first
  String.join (shown.map fun (text, i) => "\n" ++ Text.alignRight width (toString (i + 1)) ++ " | " ++ text) ++
    "\n" ++ Text.alignRight width "" ++ " | " ++
    String.ofList (List.replicate start.column.toNat ' ') ++ "^"

/-- The diagnostic and, if it is about a line of this file, an excerpt. -/
def human [ToString ε] (file : String) (lines : List String) (context : Nat) (d : Diagnostic ε) :
    String :=
  match d.place with
  | none => d.text
  | some p =>
    if p.file ≠ file || context = 0 || lines.length ≤ p.span.start.line.toNat then d.text
    else d.text ++ excerpt lines context p.span.start

end Diagnostic

namespace Diagnostics

variable {ε : Type}

def separator : String := "\n-----\n"

def errors (ds : List (Diagnostic ε)) : List (Diagnostic ε) := ds.filter Diagnostic.isError
def warnings (ds : List (Diagnostic ε)) : List (Diagnostic ε) := ds.filter Diagnostic.isWarning
def hasErrors (ds : List (Diagnostic ε)) : Bool := ds.any Diagnostic.isError

def text [ToString ε] (ds : List (Diagnostic ε)) : String :=
  Text.join separator (ds.map Diagnostic.text)

/-- All diagnostics, those about `file` with an excerpt of its text. -/
def human [ToString ε] (file source : String) (context : Nat) (ds : List (Diagnostic ε)) : String :=
  Text.join separator (ds.map (Diagnostic.human file (Text.lines source) context))

end Diagnostics
end Schematic
