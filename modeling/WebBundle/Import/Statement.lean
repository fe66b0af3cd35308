import WebBundle.Import.Lexer

/-!
# Imports of a script

The imports that a script names by string literals. `import "a"`, `import x from "a"`,
`export * from "a"`, `export { x } from "a"` and `require("a")` import at once; `import("a")` loads
on demand. Computed specifiers are no imports, and a keyword behind a dot is a member name.
-/

namespace WebBundle.Import

/-- Whether an import is part of the importing code or is loaded when it is asked for. -/
inductive Timing where
  | sync
  | async
  deriving DecidableEq, Repr

def Timing.name : Timing → String
  | .sync => "sync"
  | .async => "async"

structure Statement where
  timing : Timing
  specifier : String
  deriving DecidableEq, Repr

/-- The first literal before any semicolon, if the word `from` stands right before it. -/
def fromClause? (previous : Option Token) : List Token → Option (List Char)
  | [] => none
  | .punct ';' :: _ => none
  | .literal text :: _ => if previous = some (.word "from".toList) then some text else none
  | token :: rest => fromClause? (some token) rest

/-- The specifier and timing of the import that begins with a word, read from what follows it. -/
def readStatement (word : List Char) (rest : List Token) : Option (Timing × List Char) :=
  if word = "import".toList then
    match rest with
    | .punct '(' :: .literal text :: _ => some (.async, text)
    | .literal text :: _ => some (.sync, text)
    | .punct '.' :: _ => none
    | .punct '(' :: _ => none
    | _ => (fromClause? none rest).map (Timing.sync, ·)
  else if word = "export".toList then
    match rest with
    | .punct '*' :: _ => (fromClause? none rest).map (Timing.sync, ·)
    | .punct '{' :: _ => (fromClause? none rest).map (Timing.sync, ·)
    | _ => none
  else if word = "require".toList then
    match rest with
    | .punct '(' :: .literal text :: .punct ')' :: _ => some (.sync, text)
    | _ => none
  else none

/-- The imports of a list of tokens behind a given last token. -/
def statementsFrom (previous : Option Token) : List Token → List (Timing × List Char)
  | [] => []
  | .word word :: rest =>
      let later := statementsFrom (some (.word word)) rest
      if previous = some (.punct '.') then later
      else
        match readStatement word rest with
        | some statement => statement :: later
        | none => later
  | token :: rest => statementsFrom (some token) rest

/-- The imports of a script, in the order in which they are written. -/
def scan (source : String) : List Statement :=
  (statementsFrom none (tokens source.toList)).map fun (timing, text) =>
    ⟨timing, String.ofList text⟩

end WebBundle.Import
