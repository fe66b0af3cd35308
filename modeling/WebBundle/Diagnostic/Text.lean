import WebBundle.Diagnostic.Basic
import WebBundle.Json.Reader
import WebBundle.Json.Record

/-!
# Written diagnostics

A diagnostic is written for a terminal, its heading coloured on demand, or as one line of JSON,
from which it can be read back. Absent parts are left out of the JSON and may be left out when it
is read.
-/

namespace WebBundle

def Severity.colour : Severity → String
  | .error => "1;31"
  | .warning => "1;33"
  | .note => "1;36"

def Severity.paint (severity : Severity) (text : String) : String :=
  let escape := String.singleton (Char.ofNat 27)
  escape ++ "[" ++ severity.colour ++ "m" ++ text ++ escape ++ "[0m"

namespace Diagnostic

def heading (diagnostic : Diagnostic) : String :=
  diagnostic.severity.name ++ "[" ++ String.ofList diagnostic.code.text ++ "]"

def renderText (colour : Bool) (diagnostic : Diagnostic) : String :=
  let heading :=
    if colour then diagnostic.severity.paint diagnostic.heading else diagnostic.heading
  let location :=
    match diagnostic.location with
    | some location => "  --> " ++ location ++ "\n"
    | none => ""
  heading ++ ": " ++ diagnostic.message ++ "\n" ++ location ++
    String.join (diagnostic.notes.map fun note => "   = note: " ++ note ++ "\n") ++
    String.join (diagnostic.help.map fun help => "   = help: " ++ help ++ "\n")

def codeJson (code : Code) : Json :=
  .object [("category", .string code.category.name), ("number", .int code.number)]

/-- A field for a list that is not empty. -/
def listField (name : String) (items : List String) : List (String × Json) :=
  if items.isEmpty then [] else [(name, .array (items.map Json.string))]

def toJson (diagnostic : Diagnostic) : Json :=
  .object (
    [("severity", .string diagnostic.severity.name), ("code", codeJson diagnostic.code),
      ("message", .string diagnostic.message)] ++
    (match diagnostic.location with
     | some location => [("location", .string location)]
     | none => []) ++
    listField "notes" diagnostic.notes ++ listField "help" diagnostic.help)

/-- One line of JSON. -/
def renderJson (diagnostic : Diagnostic) : String := diagnostic.toJson.render ++ "\n"

def renderAllText (colour : Bool) (diagnostics : List Diagnostic) : String :=
  String.join (diagnostics.map (renderText colour))

def renderAllJson (diagnostics : List Diagnostic) : String :=
  String.join (diagnostics.map renderJson)

/-- A name that stands alone or is the only field of an object with the value `null`. -/
def unitName? : Json → Option String
  | .string name => some name
  | .object [(name, .null)] => some name
  | _ => none

def codeOfJson? (value : Json) : Option Code := do
  match ← value.parts? ["category", "number"] with
  | [some category, some number] =>
      let category ← Category.ofName? (← unitName? category)
      let number ← Json.natBelow? 65536 number
      return ⟨category, number⟩
  | _ => none

def ofJson? (value : Json) : Option Diagnostic := do
  match ← value.parts? ["severity", "code", "message", "location", "notes", "help"] with
  | [some severity, some code, some message, location, notes, help] =>
      let severity ← Severity.ofName? (← unitName? severity)
      let code ← codeOfJson? code
      let message ← message.text?
      let location ← Json.optionalPart? none Json.optionalText? location
      let notes ← Json.optionalPart? [] Json.texts? notes
      let help ← Json.optionalPart? [] Json.texts? help
      return { severity, code, message, location, notes, help }
  | _ => none

def parse? (line : String) : Option Diagnostic := (Json.parse? line).bind ofJson?

end Diagnostic

end WebBundle
