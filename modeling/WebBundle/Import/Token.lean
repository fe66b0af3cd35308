import WebBundle.Text.Substring

/-!
# Tokens of a script

A script is cut into words, string literals, single punctuation characters and opaque pieces
(numbers, templates and regular expressions, whose content does not matter). Blanks and comments
vanish. Every reading step consumes at least one character, so the cut ends on every text, however
malformed.
-/

namespace WebBundle.Import

inductive Token where
  | word (text : List Char)
  | literal (text : List Char)
  | punct (c : Char)
  | opaqued
  deriving DecidableEq, Repr

/-- The words after which a slash begins a regular expression. -/
def regexWords : List String :=
  ["return", "typeof", "case", "do", "else", "in", "instanceof", "new", "delete", "void",
   "throw", "yield", "await"]

/-- A slash divides after a value and begins a regular expression everywhere else. -/
def slashBeginsRegex : Option Token → Bool
  | none => true
  | some (.punct c) => !(c = ')' || c = ']' || c = '}')
  | some (.word text) => regexWords.any (fun word => word.toList = text)
  | some (.literal _) => false
  | some .opaqued => false

/-- Letters, digits, `_`, `$` and everything outside ASCII. -/
def isWordChar (c : Char) : Bool :=
  c.isAlphanum || c = '_' || c = '$' || 0x80 ≤ c.toNat

def isBlankChar (c : Char) : Bool := c = ' ' || c = '\t' || c = '\n' || c = '\r'

def isNumberChar (c : Char) : Bool := c.isAlphanum || c = '.'

/-- The text after a line comment, from the line break on. -/
def afterLineComment (text : List Char) : List Char := text.dropWhile (· ≠ '\n')

/-- The text after the end of a block comment. -/
def afterBlockComment : List Char → List Char
  | '*' :: '/' :: text => text
  | _ :: text => afterBlockComment text
  | [] => []

/-- Reads a string literal behind its opening quote: its content, and the text behind it. A
backslash stands for the character after it. A line break or the end of the text leaves the
literal open: there is no content, and reading goes on at the line break. -/
def readLiteral (quote : Char) : (content text : List Char) → Option (List Char) × List Char
  | _, [] => (none, [])
  | _, ['\\'] => (none, [])
  | content, '\\' :: c :: text => readLiteral quote (c :: content) text
  | content, c :: text =>
      if c = '\n' then (none, c :: text)
      else if c = quote then (some content.reverse, text)
      else readLiteral quote (c :: content) text

/-- Where reading stands inside a template: in its text, or in an embedded expression with some
open braces. -/
inductive TemplateState where
  | body
  | expression (depth : Nat)
  | quoted (quote : Char)

/-- The text behind a template. The list holds what is open, innermost first; it is empty behind
the closing backtick. A literal inside an expression that a line break leaves open counts as
ended there. -/
def afterTemplate : List TemplateState → List Char → List Char
  | [], text => text
  | _ :: _, [] => []
  | .body :: outer, '\\' :: text =>
      match text with
      | [] => []
      | _ :: text => afterTemplate (.body :: outer) text
  | .body :: outer, '$' :: '{' :: text => afterTemplate (.expression 1 :: .body :: outer) text
  | .body :: outer, c :: text =>
      if c.toNat = 0x60 then afterTemplate outer text else afterTemplate (.body :: outer) text
  | .expression depth :: outer, c :: text =>
      if c = '{' then afterTemplate (.expression (depth + 1) :: outer) text
      else if c = '}' then
        if depth ≤ 1 then afterTemplate outer text
        else afterTemplate (.expression (depth - 1) :: outer) text
      else if c = '"' || c = '\'' then
        afterTemplate (.quoted c :: .expression depth :: outer) text
      else if c.toNat = 0x60 then afterTemplate (.body :: .expression depth :: outer) text
      else afterTemplate (.expression depth :: outer) text
  | .quoted quote :: outer, c :: text =>
      if c = '\\' then
        match text with
        | [] => []
        | _ :: text => afterTemplate (.quoted quote :: outer) text
      else if c = quote || c = '\n' then afterTemplate outer text
      else afterTemplate (.quoted quote :: outer) text

/-- The text behind a regular expression and its flags. A slash inside brackets does not end it; a
line break does, and stays. -/
def afterRegex : (inClass : Bool) → List Char → List Char
  | _, [] => []
  | _, ['\\'] => []
  | inClass, '\\' :: _ :: text => afterRegex inClass text
  | inClass, c :: text =>
      if c = '\n' then c :: text
      else if c = '[' then afterRegex true text
      else if c = ']' then afterRegex false text
      else if c = '/' && !inClass then text.dropWhile Char.isAlpha
      else afterRegex inClass text

end WebBundle.Import
