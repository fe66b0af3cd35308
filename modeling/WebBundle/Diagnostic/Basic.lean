import WebBundle.Json.Basic

/-!
# Diagnostics

A diagnostic is a message with a severity and a code, and optionally the place it is about, notes
and suggestions. What the commands report is a list of diagnostics in a fixed order.
-/

namespace WebBundle

inductive Severity where
  | note
  | warning
  | error
  deriving DecidableEq, Repr

namespace Severity

def name : Severity → String
  | .note => "note"
  | .warning => "warning"
  | .error => "error"

/-- Errors weigh most. -/
def weight : Severity → Nat
  | .note => 0
  | .warning => 1
  | .error => 2

def ofName? (name : String) : Option Severity :=
  [note, warning, error].find? fun severity => severity.name = name

end Severity

/-- The family of a code: fatal conditions, and conditions that the build survives. -/
inductive Category where
  | fatal
  | recoverable
  deriving DecidableEq, Repr

namespace Category

def name : Category → String
  | .fatal => "Error"
  | .recoverable => "Warning"

def letter : Category → Char
  | .fatal => 'E'
  | .recoverable => 'W'

def ofName? (name : String) : Option Category :=
  [fatal, recoverable].find? fun category => category.name = name

end Category

/-- A code such as `E101`. -/
structure Code where
  category : Category
  number : Nat
  deriving DecidableEq, Repr

namespace Code

/-- The digits of a number, at least three. -/
def padded (n : Nat) : List Char :=
  let digits := (toString n).toList
  List.replicate (3 - digits.length) '0' ++ digits

def text (code : Code) : List Char := code.category.letter :: padded code.number

/-- An import that names no file. -/
def unresolvedImport : Code := ⟨.fatal, 101⟩

/-- A chunk from which cache groups took every module. -/
def emptyChunk : Code := ⟨.fatal, 102⟩

/-- A worker template without exactly one marker. -/
def manifestInjection : Code := ⟨.fatal, 103⟩

/-- A configuration that is missing or makes no sense. -/
def config : Code := ⟨.fatal, 104⟩

/-- A file that cannot be read or written. -/
def storage : Code := ⟨.fatal, 105⟩

/-- A source that its transformation rejects. -/
def transform : Code := ⟨.fatal, 106⟩

/-- A module that no entry reaches. -/
def dangling : Code := ⟨.recoverable, 101⟩

/-- Two outputs with one path. -/
def duplicate : Code := ⟨.recoverable, 102⟩

/-- A file too large for the precache. -/
def oversized : Code := ⟨.recoverable, 103⟩

/-- A cache group without modules. -/
def unusedGroup : Code := ⟨.recoverable, 104⟩

end Code

structure Diagnostic where
  severity : Severity
  code : Code
  message : String
  location : Option String := none
  notes : List String := []
  help : List String := []
  deriving DecidableEq, Repr

end WebBundle
