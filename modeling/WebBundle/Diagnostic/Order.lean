import WebBundle.Diagnostic.Basic

/-!
# The order of a report

A report lists the most severe diagnostics first, then by code, location and message, a missing
location before every other. Diagnostics that agree in all four keep their order.
-/

namespace WebBundle

/-- Dictionary order on texts, character by character. -/
def textLe (a b : List Char) : Bool :=
  match a, b with
  | [], _ => true
  | _ :: _, [] => false
  | x :: xs, y :: ys => x < y || (x = y && textLe xs ys)

/-- Nothing comes before every text. -/
def optionalTextLe : Option String → Option String → Bool
  | none, _ => true
  | some _, none => false
  | some a, some b => textLe a.toList b.toList

namespace Diagnostic

def le (a b : Diagnostic) : Bool :=
  if a.severity ≠ b.severity then b.severity.weight ≤ a.severity.weight
  else if a.code.text ≠ b.code.text then textLe a.code.text b.code.text
  else if a.location ≠ b.location then optionalTextLe a.location b.location
  else textLe a.message.toList b.message.toList

def sorted (diagnostics : List Diagnostic) : List Diagnostic := diagnostics.mergeSort le

end Diagnostic

/-- A collector of diagnostics. The counts are those of everything ever emitted. -/
structure Sink where
  held : List Diagnostic := []
  errors : Nat := 0
  warnings : Nat := 0

namespace Sink

def emit (sink : Sink) (diagnostic : Diagnostic) : Sink where
  held := sink.held ++ [diagnostic]
  errors := sink.errors + (if diagnostic.severity = .error then 1 else 0)
  warnings := sink.warnings + (if diagnostic.severity = .warning then 1 else 0)

/-- Hands out what the collector holds. -/
def take (sink : Sink) : List Diagnostic × Sink := (sink.held, { sink with held := [] })

def hasErrors (sink : Sink) : Bool := sink.errors > 0

def sorted (sink : Sink) : List Diagnostic := Diagnostic.sorted sink.held

end Sink

end WebBundle
