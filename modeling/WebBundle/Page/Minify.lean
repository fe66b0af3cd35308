import WebBundle.Text.Blank
import WebBundle.Text.Substring

/-!
# Smaller text

The blank ends of lines and blank lines are removed. Every line that stays ends with a line break.
-/

namespace WebBundle.Page

/-- The lines that are not blank, without their blank ends. -/
def solidLines (text : List Char) : List (List Char) :=
  ((Text.pieces (· = '\n') text).map Text.trimEnd).filter (fun line => !line.isEmpty)

def stripBlank (text : String) : String :=
  String.ofList ((solidLines text.toList).flatMap fun line => line ++ ['\n'])

end WebBundle.Page
