import WebBundle.Diagnostic.Basic

/-!
# Steps that report

A step of a build may fail, and it may report diagnostics. What was reported before a failure stays
reported.
-/

namespace WebBundle.Build

/-- A step that reports diagnostics and ends with a value or an error. -/
structure Reporting (ε α : Type) where
  diagnostics : List Diagnostic
  result : Except ε α

namespace Reporting

variable {ε ε' α β : Type}

/-- A step that reports nothing. -/
def silent (result : Except ε α) : Reporting ε α := ⟨[], result⟩

/-- A step that only reports. -/
def report (diagnostics : List Diagnostic) : Reporting ε Unit := ⟨diagnostics, .ok ()⟩

/-- A step whose error is wrapped. -/
def ofPair (wrap : ε → ε') : List Diagnostic × Except ε α → Reporting ε' α
  | (diagnostics, result) => ⟨diagnostics, result.mapError wrap⟩

/-- A step that goes on with the value of the one before it. -/
def andThen (step : Reporting ε α) (next : α → Reporting ε β) : Reporting ε β :=
  match step.result with
  | .error error => ⟨step.diagnostics, .error error⟩
  | .ok value => ⟨step.diagnostics ++ (next value).diagnostics, (next value).result⟩

instance : Monad (Reporting ε) where
  pure value := ⟨[], .ok value⟩
  bind := andThen

theorem result_andThen_of_ok {step : Reporting ε α} {next : α → Reporting ε β} {value : α}
    (h : step.result = .ok value) : (step.andThen next).result = (next value).result := by
  simp [andThen, h]

theorem result_andThen_of_error {step : Reporting ε α} {next : α → Reporting ε β} {error : ε}
    (h : step.result = .error error) : (step.andThen next).result = .error error := by
  simp [andThen, h]

end Reporting

end WebBundle.Build
