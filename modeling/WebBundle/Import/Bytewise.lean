import WebBundle.Import.Token
import WebBundle.Text.Utf8

/-!
# Cutting a script byte by byte

The cut into tokens as a walk over the bytes of a script. Every part of it is a loop that reads the
byte at a place, and a round of a loop goes on from some other place or leaves the loop. An escape
is two bytes long whatever its character is, so a round may begin inside a character or behind the
end. What could go wrong is a fault: a loop may run on, a word may be cut out at a place inside a
character, and more braces may be closed than were opened.
-/

namespace WebBundle.Import.Bytewise

inductive Fault where
  | endless
  | slice (start stop : Nat)
  | depth
  deriving DecidableEq, Repr

/-- What a round comes to: the loop goes on from a place, or it is left at one. -/
inductive Round (σ ρ : Type) where
  | again (place : Nat) (state : σ)
  | leave (place : Nat) (result : ρ)

/-- A loop over bytes. It makes a round as long as there is a byte for which it goes on; `atEnd` is
the result if there is none. -/
structure Loop (σ ρ : Type) where
  goes : UInt8 → Bool := fun _ => true
  round : (place : Nat) → σ → UInt8 → Except Fault (Round σ ρ)
  atEnd : σ → ρ

namespace Loop

variable {σ ρ : Type}

/-- One round, or the end of the loop where no byte lets it go on. -/
def step (loop : Loop σ ρ) (bytes : List UInt8) (place : Nat) (state : σ) :
    Except Fault (Round σ ρ) :=
  match bytes[place]? with
  | none => .ok (.leave place (loop.atEnd state))
  | some byte =>
      if loop.goes byte then loop.round place state byte
      else .ok (.leave place (loop.atEnd state))

/-- The loop from a place on, with the place where it is left. A loop that is not left within the
limit is endless. -/
def steps (loop : Loop σ ρ) (bytes : List UInt8) :
    (limit place : Nat) → σ → Except Fault (Nat × ρ)
  | 0, _, _ => .error .endless
  | limit + 1, place, state =>
      match loop.step bytes place state with
      | .error fault => .error fault
      | .ok (.again place state) => loop.steps bytes limit place state
      | .ok (.leave place result) => .ok (place, result)

/-- There is no place for more rounds than there are bytes. -/
def run (loop : Loop σ ρ) (bytes : List UInt8) (place : Nat) (state : σ) : Except Fault (Nat × ρ) :=
  loop.steps bytes (bytes.length + 1) place state

/-- The place where the loop is left. -/
def skip (loop : Loop σ ρ) (bytes : List UInt8) (place : Nat) (state : σ) : Except Fault Nat :=
  (loop.run bytes place state).map Prod.fst

end Loop

/-! ## Pieces of a script -/

/-- The byte at a place, read as the character of its number. -/
def peek (bytes : List UInt8) (place : Nat) : Option Char := bytes[place]?.map Char.ofUInt8

/-- A run of bytes that pass a test, each as the character of its number. -/
def span (test : Char → Bool) : Loop Unit Unit where
  goes byte := test (Char.ofUInt8 byte)
  round place _ _ := .ok (.again (place + 1) ())
  atEnd := id

/-- A block comment behind its opening. -/
def blockComment (bytes : List UInt8) : Loop Unit Unit where
  round place _ byte :=
    if Char.ofUInt8 byte = '*' && peek bytes (place + 1) = some '/' then
      .ok (.leave (place + 2) ())
    else .ok (.again (place + 1) ())
  atEnd := id

def decode (bytes : List UInt8) : List Char := (Text.Utf8.lenient ⟨bytes.toArray⟩).toList

/-- A string literal behind its opening quote, with the bytes of its content so far. -/
def literal (bytes : List UInt8) (quote : Char) : Loop (List UInt8) (Option (List Char)) where
  round place content byte :=
    let c := Char.ofUInt8 byte
    if c = '\\' then .ok (.again (place + 2) (content ++ bytes[place + 1]?.toList))
    else if c = '\n' then .ok (.leave place none)
    else if c = quote then .ok (.leave (place + 1) (some (decode content)))
    else .ok (.again (place + 1) (content ++ [byte]))
  atEnd _ := none

/-- A template behind its opening. `expression` gives the place behind an embedded expression. -/
def template (bytes : List UInt8) (expression : Nat → Except Fault Nat) : Loop Unit Unit where
  round place _ byte :=
    let c := Char.ofUInt8 byte
    if c = '\\' then .ok (.again (place + 2) ())
    else if c.toNat = 0x60 then .ok (.leave (place + 1) ())
    else if c = '$' && peek bytes (place + 1) = some '{' then
      (expression (place + 2)).map fun stop => .again stop ()
    else .ok (.again (place + 1) ())
  atEnd := id

/-- An embedded expression behind its opening, with the number of open braces. `template` gives the
place behind a template. -/
def expression (bytes : List UInt8) (template : Nat → Except Fault Nat) : Loop Nat Unit where
  round place depth byte :=
    let c := Char.ofUInt8 byte
    if c = '{' then .ok (.again (place + 1) (depth + 1))
    else if c = '}' then
      match depth with
      | 0 => .error .depth
      | 1 => .ok (.leave (place + 1) ())
      | depth + 2 => .ok (.again (place + 1) (depth + 1))
    else if c = '"' || c = '\'' then
      ((literal bytes c).skip bytes (place + 1) []).map fun stop => .again stop depth
    else if c.toNat = 0x60 then (template (place + 1)).map fun stop => .again stop depth
    else .ok (.again (place + 1) depth)
  atEnd _ := ()

mutual

/-- The place behind a template, from behind its opening. Templates and expressions may be nested as
deep as is said. -/
def afterTemplate (bytes : List UInt8) : (nesting place : Nat) → Except Fault Nat
  | 0, _ => .error .endless
  | nesting + 1, place => (template bytes (afterExpression bytes nesting)).skip bytes place ()

/-- The place behind an embedded expression, from behind its opening. -/
def afterExpression (bytes : List UInt8) : (nesting place : Nat) → Except Fault Nat
  | 0, _ => .error .endless
  | nesting + 1, place => (expression bytes (afterTemplate bytes nesting)).skip bytes place 1

end

/-- A regular expression behind its opening and up to behind its flags. -/
def regex (bytes : List UInt8) : Loop Bool Unit where
  round place inClass byte :=
    let c := Char.ofUInt8 byte
    if c = '\\' then .ok (.again (place + 2) inClass)
    else if c = '\n' then .ok (.leave place ())
    else if c = '[' then .ok (.again (place + 1) true)
    else if c = ']' then .ok (.again (place + 1) false)
    else if c = '/' && !inClass then
      ((span Char.isAlpha).skip bytes (place + 1) ()).map fun stop => .leave stop ()
    else .ok (.again (place + 1) inClass)
  atEnd _ := ()

/-! ## The whole script -/

/-- A byte inside a character. -/
def isContinuation (byte : UInt8) : Bool := 0x80 ≤ byte && byte < 0xC0

/-- Whether a place lies between two characters, before the first or behind the last one. -/
def isBoundary (bytes : List UInt8) (place : Nat) : Bool :=
  place = bytes.length || bytes[place]?.any fun byte => !isContinuation byte

/-- The text between two places. -/
def slice (bytes : List UInt8) (start stop : Nat) : Except Fault (List Char) :=
  if start ≤ stop && isBoundary bytes start && isBoundary bytes stop then
    .ok (decode ((bytes.take stop).drop start))
  else .error (.slice start stop)

/-- The main loop, with the tokens so far. -/
def script (bytes : List UInt8) : Loop (List Token) (List Token) where
  round place tokens byte :=
    let c := Char.ofUInt8 byte
    let next := peek bytes (place + 1)
    if isBlankChar c then .ok (.again (place + 1) tokens)
    else if c = '/' && next = some '/' then
      ((span (· ≠ '\n')).skip bytes place ()).map fun stop => .again stop tokens
    else if c = '/' && next = some '*' then
      ((blockComment bytes).skip bytes (place + 2) ()).map fun stop => .again stop tokens
    else if c = '/' && slashBeginsRegex tokens.getLast? then
      ((regex bytes).skip bytes (place + 1) false).map fun stop =>
        .again stop (tokens ++ [.opaqued])
    else if c = '\'' || c = '"' then
      ((literal bytes c).run bytes (place + 1) []).map fun read =>
        .again read.1 (tokens ++ (read.2.map Token.literal).toList)
    else if c.toNat = 0x60 then
      (afterTemplate bytes (bytes.length + 1) (place + 1)).map fun stop =>
        .again stop (tokens ++ [.opaqued])
    else if c.isDigit then
      ((span isNumberChar).skip bytes place ()).map fun stop =>
        .again stop (tokens ++ [.opaqued])
    else if isWordChar c then
      ((span isWordChar).skip bytes place ()).bind fun stop =>
        (slice bytes place stop).map fun word => .again stop (tokens ++ [.word word])
    else .ok (.again (place + 1) (tokens ++ [.punct c]))
  atEnd := id

/-- The tokens of a script, cut on its bytes. -/
def tokens (source : String) : Except Fault (List Token) :=
  let bytes := source.toUTF8.toList
  ((script bytes).run bytes 0 []).map Prod.snd

end WebBundle.Import.Bytewise
