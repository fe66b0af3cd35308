import WebBundle.Json.Basic

/-!
# Reading JSON

The reader accepts exactly one value with blanks around it. A string may not hold bare control
characters. An escape that names one half of a surrogate pair must be followed by the other half,
or the string is garbled. A number without fraction and exponent is an integer; all other numbers
keep their text.
-/

namespace WebBundle.Json

def isBlank (c : Char) : Bool := c = ' ' || c = '\t' || c = '\n' || c = '\r'

def skipBlanks (text : List Char) : List Char := text.dropWhile isBlank

/-- The character that a one-letter escape names. -/
def simpleEscape? (c : Char) : Option Char :=
  if c = '"' || c = '\\' || c = '/' then some c
  else if c = 'b' then some (Char.ofNat 8)
  else if c = 'f' then some (Char.ofNat 12)
  else if c = 'n' then some '\n'
  else if c = 'r' then some '\r'
  else if c = 't' then some '\t'
  else none

/-- The code unit that four hexadecimal digits write. -/
def unit? (a b c d : Char) : Option Nat := Text.Hex.number? [a, b, c, d]

def isHighHalf (n : Nat) : Bool := 0xD800 ≤ n && n < 0xDC00
def isLowHalf (n : Nat) : Bool := 0xDC00 ≤ n && n < 0xE000

/-- Reads the rest of a string whose content so far is given backwards. -/
def readText : (content text : List Char) → Option (List Char × List Char)
  | _, [] => none
  | content, '"' :: text => some (content.reverse, text)
  | content, '\\' :: 'u' :: a :: b :: c :: d :: text =>
      match unit? a b c d with
      | none => none
      | some n =>
          if isLowHalf n then none
          else if isHighHalf n then
            match text with
            | '\\' :: 'u' :: e :: f :: g :: h :: text =>
                match unit? e f g h with
                | none => none
                | some low =>
                    if isLowHalf low then
                      readText
                        (Char.ofNat (0x10000 + (n - 0xD800) * 0x400 + (low - 0xDC00)) :: content)
                        text
                    else none
            | _ => none
          else readText (Char.ofNat n :: content) text
  | content, '\\' :: c :: text =>
      match simpleEscape? c with
      | some escaped => readText (escaped :: content) text
      | none => none
  | content, c :: text => if c.toNat < 0x20 || c = '\\' then none else readText (c :: content) text

/-- Skips the rest of a string, whatever its escapes name. -/
def skipText : List Char → Option (List Char)
  | [] => none
  | '"' :: text => some text
  | '\\' :: 'u' :: a :: b :: c :: d :: text => if (unit? a b c d).isSome then skipText text else none
  | '\\' :: c :: text => if (simpleEscape? c).isSome then skipText text else none
  | c :: text => if c.toNat < 0x20 || c = '\\' then none else skipText text

/-- Reads the rest of a string, without a text if it is garbled. -/
def readString? (text : List Char) : Option (Option String × List Char) :=
  match readText [] text with
  | some (content, rest) => some (some (String.ofList content), rest)
  | none => (skipText text).map fun rest => (none, rest)

/-- A string that was read. -/
def ofText? : Option String → Json
  | some text => .string text
  | none => .garbled

/-- An object that was read, with its fields last first. -/
def ofFields (fields : List (Option String × Json)) : Json :=
  match fields.reverse.mapM fun (name, value) => name.map (·, value) with
  | some fields => .object fields
  | none => .garbled

/-- Splits off a run of digits, which may not be empty. -/
def digits? (text : List Char) : Option (List Char × List Char) :=
  match text.takeWhile Char.isDigit with
  | [] => none
  | run => some (run, text.dropWhile Char.isDigit)

/-- The digits before the point: a single zero or a run that begins with another digit. -/
def wholePart? (text : List Char) : Option (List Char × List Char) := do
  let (run, rest) ← digits? text
  if run.head? = some '0' && run.length ≠ 1 then none else some (run, rest)

def fraction? : List Char → Option (List Char × List Char)
  | '.' :: text => (digits? text).map fun (run, rest) => ('.' :: run, rest)
  | text => some ([], text)

def exponent? : List Char → Option (List Char × List Char)
  | e :: text =>
      if e = 'e' || e = 'E' then
        match text with
        | '+' :: text => (digits? text).map fun (run, rest) => (e :: '+' :: run, rest)
        | '-' :: text => (digits? text).map fun (run, rest) => (e :: '-' :: run, rest)
        | text => (digits? text).map fun (run, rest) => (e :: run, rest)
      else some ([], e :: text)
  | [] => some ([], [])

def natOfDigits (digits : List Char) : Nat :=
  digits.foldl (fun total c => 10 * total + (c.toNat - '0'.toNat)) 0

def readNumber? (text : List Char) : Option (Json × List Char) := do
  let (sign, text) := if text.head? = some '-' then (['-'], text.tail) else ([], text)
  let (whole, text) ← wholePart? text
  let (fraction, text) ← fraction? text
  let (exponent, text) ← exponent? text
  let n := natOfDigits whole
  if fraction.isEmpty && exponent.isEmpty && !(n = 0 && !sign.isEmpty) then
    some (.int (if sign.isEmpty then n else -n), text)
  else some (.real (String.ofList (sign ++ whole ++ fraction ++ exponent)), text)

/-- Reads a keyword. -/
def readWord? (word : String) (value : Json) (text : List Char) : Option (Json × List Char) :=
  if word.toList.isPrefixOf text then some (value, text.drop word.length) else none

mutual

/-- Reads one value. Every level of nesting and every item takes one unit of fuel. -/
def readValue? : (fuel : Nat) → List Char → Option (Json × List Char)
  | 0, _ => none
  | fuel + 1, text =>
      match skipBlanks text with
      | '"' :: text => (readString? text).map fun (content, rest) => (ofText? content, rest)
      | '[' :: text =>
          match skipBlanks text with
          | ']' :: text => some (.array [], text)
          | _ => readItems? fuel [] text
      | '{' :: text =>
          match skipBlanks text with
          | '}' :: text => some (.object [], text)
          | _ => readFields? fuel [] text
      | 'n' :: text => readWord? "null" .null ('n' :: text)
      | 't' :: text => readWord? "true" (.bool true) ('t' :: text)
      | 'f' :: text => readWord? "false" (.bool false) ('f' :: text)
      | text => readNumber? text

def readItems? : (fuel : Nat) → List Json → List Char → Option (Json × List Char)
  | 0, _, _ => none
  | fuel + 1, items, text =>
      match readValue? fuel text with
      | none => none
      | some (item, text) =>
          match skipBlanks text with
          | ',' :: text => readItems? fuel (item :: items) text
          | ']' :: text => some (.array (item :: items).reverse, text)
          | _ => none

def readFields? :
    (fuel : Nat) → List (Option String × Json) → List Char → Option (Json × List Char)
  | 0, _, _ => none
  | fuel + 1, fields, text =>
      match skipBlanks text with
      | '"' :: text =>
          match readString? text with
          | none => none
          | some (name, text) =>
              match skipBlanks text with
              | ':' :: text =>
                  match readValue? fuel text with
                  | none => none
                  | some (value, text) =>
                      let fields := (name, value) :: fields
                      match skipBlanks text with
                      | ',' :: text => readFields? fuel fields text
                      | '}' :: text => some (ofFields fields, text)
                      | _ => none
              | _ => none
      | _ => none

end

/-- The value that a text writes. -/
def parse? (text : String) : Option Json :=
  let chars := text.toList
  match readValue? (chars.length + 1) chars with
  | some (value, rest) => if (skipBlanks rest).isEmpty then some value else none
  | none => none

end WebBundle.Json
