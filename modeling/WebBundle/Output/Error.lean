import WebBundle.Output.Manifest
import WebBundle.Storage.Fault

/-!
# Errors of the output

The reasons for which no output is written.
-/

namespace WebBundle.Output

inductive OutputError where
  | injection (error : InjectionError)
  | missingSource (path : String)
  | invalidGlob (error : InvalidGlob)
  | inaccessible (path : String) (fault : Storage.Fault)

def OutputError.message : OutputError → String
  | .injection error => error.message
  | .missingSource path => "asset source " ++ path ++ " does not exist"
  | .invalidGlob error => error.message
  | .inaccessible path fault => "i/o error on " ++ path ++ ": " ++ fault.message

/-- A fault of an operation on a path. -/
def orInaccessible {α : Type} (path : String) : Except Storage.Fault α → Except OutputError α
  | .ok value => .ok value
  | .error fault => .error (.inaccessible path fault)

end WebBundle.Output
