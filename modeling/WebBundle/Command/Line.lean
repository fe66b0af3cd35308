import WebBundle.Command.Settings
import WebBundle.Config.Basic

/-!
# The command line of the bundler

There are three commands: to build a project, to print its plan, and to build and serve it. Some
options may stand before or behind the name of the command; behind it they count more.
-/

namespace WebBundle.Command

inductive Format where
  | text
  | json
  deriving DecidableEq, Repr

def Format.name : Format → String
  | .text => "text"
  | .json => "json"

def Format.ofName? (name : String) : Option Format :=
  [Format.text, .json].find? fun format => format.name = name

/-- The options of all commands. -/
structure Common where
  quiet : Bool := false
  verbose : Bool := false
  colour : Bool := false
  config : Option String := none
  deriving DecidableEq, Repr

structure BuildRequest where
  mode : Option Mode := none
  outDir : Option String := none
  format : Format := .text
  deriving DecidableEq, Repr

structure PlanRequest where
  mode : Option Mode := none
  format : Format := .text
  deriving DecidableEq, Repr

structure ServeRequest where
  mode : Option Mode := none
  port : Option Nat := none
  host : Option String := none
  noBuild : Bool := false
  deriving DecidableEq, Repr

inductive Request where
  | build (request : BuildRequest)
  | plan (request : PlanRequest)
  | serve (request : ServeRequest)
  deriving DecidableEq, Repr

/-- A decimal number with an optional sign that names a port. -/
def port? (text : String) : Option Nat :=
  let (negative, digits) :=
    match text.toList with
    | '-' :: digits => (true, digits)
    | '+' :: digits => (false, digits)
    | digits => (false, digits)
  if digits.isEmpty || !digits.all Char.isDigit then none
  else
    let n := digits.foldl (fun total c => 10 * total + (c.toNat - '0'.toNat)) 0
    if n < UInt16.size && (!negative || n = 0) then some n else none

/-- When text is coloured: if it goes to a terminal, always, or never. -/
def colourChoices : List String := ["auto", "always", "never"]

def commonOptions : List OptionForm :=
  [{ name := "quiet", letter := some 'q', takesValue := false },
   { name := "verbose", letter := some 'v', takesValue := false },
   { name := "color", accepts := fun value => value ∈ colourChoices },
   { name := "config" }]

def modeOption : OptionForm :=
  { name := "mode", letter := some 'm', accepts := fun value => (Mode.ofName? value).isSome }

def formatOption : OptionForm :=
  { name := "format", letter := some 'f', accepts := fun value => (Format.ofName? value).isSome }

def topGrammar : Grammar := { options := commonOptions, tellsVersion := true }

def buildGrammar : Grammar :=
  { options := [modeOption, { name := "out-dir", letter := some 'o' }, formatOption] ++
      commonOptions }

def planGrammar : Grammar := { options := [modeOption, formatOption] ++ commonOptions }

def serveGrammar : Grammar :=
  { options := [modeOption,
      { name := "port", letter := some 'p', accepts := fun value => (port? value).isSome },
      { name := "host" }, { name := "no-build", takesValue := false }] ++ commonOptions }

def grammarOf? (command : String) : Option Grammar :=
  if command = "build" then some buildGrammar
  else if command = "plan" then some planGrammar
  else if command = "serve" then some serveGrammar
  else none

/-- The common options, from what stands behind the name of the command and what stands before it.
Output that goes to no terminal is coloured only if that is asked for. -/
def commonOf (inner outer : List Setting) : Common :=
  let value? := fun name => (valueOf? inner name).or (valueOf? outer name)
  { quiet := (value? "quiet").isSome
    verbose := (value? "verbose").isSome
    colour := value? "color" = some "always"
    config := value? "config" }

def modeOf (settings : List Setting) : Option Mode :=
  (valueOf? settings "mode").bind Mode.ofName?

def formatOf (settings : List Setting) : Format :=
  ((valueOf? settings "format").bind Format.ofName?).getD .text

def requestOf (command : String) (settings : List Setting) : Request :=
  if command = "build" then
    .build ⟨modeOf settings, valueOf? settings "out-dir", formatOf settings⟩
  else if command = "plan" then .plan ⟨modeOf settings, formatOf settings⟩
  else
    .serve ⟨modeOf settings, (valueOf? settings "port").bind port?, valueOf? settings "host",
      isGiven settings "no-build"⟩

/-- What follows the word that asks for help: nothing, or the names of known commands. -/
def helpFor : List String → Stop
  | [] => .help
  | [command] => if command = "help" || (grammarOf? command).isSome then .help else .refused
  | _ => .refused

/-- Reads a command line. -/
def parse (words : List String) : Except Stop (Common × Request) := do
  let (outer, rest) ← topGrammar.read {} words
  match rest with
  | [] => .error .refused
  | command :: words =>
      if command = "help" then .error (helpFor words)
      else
        match grammarOf? command with
        | none => .error .refused
        | some grammar =>
            let (inner, rest) ← grammar.read {} words
            if rest.isEmpty then .ok (commonOf inner outer, requestOf command inner)
            else .error .refused

end WebBundle.Command
