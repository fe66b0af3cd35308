import WebBundle.Text.Hex
import WebBundle.Toml.Basic

/-!
# Scalars of TOML

Strings in their four written forms, numbers, and points in time. Every reader returns the value
and the text behind it.
-/

namespace WebBundle.Toml

def isSpace (c : Char) : Bool := c = ' ' || c = '\t'

def skipSpace (text : List Char) : List Char := text.dropWhile isSpace

/-- The text behind a line break. -/
def afterNewline? : List Char → Option (List Char)
  | '\n' :: text => some text
  | '\r' :: '\n' :: text => some text
  | _ => none

/-- A character that may stand in a comment or a string: a tab, or anything that is no control
character of ASCII. -/
def isPlain (c : Char) : Bool := c = '\t' || (0x20 ≤ c.toNat && c.toNat ≠ 0x7F)

/-- The character that an escape names, without the long forms. -/
def simpleEscape? (c : Char) : Option Char :=
  if c = '"' || c = '\\' then some c
  else if c = 'b' then some (Char.ofNat 8)
  else if c = 't' then some '\t'
  else if c = 'n' then some '\n'
  else if c = 'f' then some (Char.ofNat 12)
  else if c = 'r' then some '\r'
  else none

def scalarValue? (digits : List Char) : Option Char := do
  let n ← Text.Hex.number? digits
  if n < 0xD800 || (0xDFFF < n && n < 0x110000) then some (Char.ofNat n) else none

/-- Reads an escape behind its backslash. -/
def readEscape? : List Char → Option (Char × List Char)
  | 'u' :: a :: b :: c :: d :: text => (scalarValue? [a, b, c, d]).map (·, text)
  | 'U' :: a :: b :: c :: d :: e :: f :: g :: h :: text =>
      (scalarValue? [a, b, c, d, e, f, g, h]).map (·, text)
  | c :: text => (simpleEscape? c).map (·, text)
  | [] => none

/-- The text behind a backslash at the end of a line: all blanks and line breaks are skipped. -/
def afterFoldedLine? (text : List Char) : Option (List Char) :=
  (afterNewline? (skipSpace text)).map skipBlankLines
where
  skipBlankLines : List Char → List Char
    | '\r' :: '\n' :: text => skipBlankLines text
    | c :: text => if c = '\n' || isSpace c then skipBlankLines text else c :: text
    | [] => []

/-- Reads the rest of a string on one line. Fuel bounds the number of characters. -/
def readBasic? : (fuel : Nat) → (content text : List Char) → Option (List Char × List Char)
  | 0, _, _ => none
  | fuel + 1, content, text =>
      match text with
      | '"' :: text => some (content.reverse, text)
      | '\\' :: text =>
          match readEscape? text with
          | some (c, text) => readBasic? fuel (c :: content) text
          | none => none
      | c :: text => if isPlain c then readBasic? fuel (c :: content) text else none
      | [] => none

/-- The length of a run of one character. -/
def runLength (c : Char) (text : List Char) : Nat := (text.takeWhile (· = c)).length

/-- Reads the rest of a string over several lines. A run of three to five quotes ends it, and what
exceeds three belongs to the content. -/
def readBlock? (quote : Char) (escapes : Bool) :
    (fuel : Nat) → (content text : List Char) → Option (List Char × List Char)
  | 0, _, _ => none
  | fuel + 1, content, text =>
      match text with
      | [] => none
      | c :: rest =>
          if c = quote then
            let run := min (runLength quote text) 5
            if 3 ≤ run then
              some ((List.replicate (run - 3) quote ++ content).reverse, text.drop run)
            else readBlock? quote escapes fuel (c :: content) rest
          else if c = '\\' && escapes then
            match afterFoldedLine? rest with
            | some text => readBlock? quote escapes fuel content text
            | none =>
                match readEscape? rest with
                | some (c, text) => readBlock? quote escapes fuel (c :: content) text
                | none => none
          else
            match afterNewline? text with
            | some text => readBlock? quote escapes fuel ('\n' :: content) text
            | none => if isPlain c then readBlock? quote escapes fuel (c :: content) rest else none

/-- Reads a string on one line without escapes. -/
def readRaw? : (content text : List Char) → Option (List Char × List Char)
  | _, [] => none
  | content, c :: text =>
      if c = '\'' then some (content.reverse, text)
      else if isPlain c then readRaw? (c :: content) text
      else none

/-- A line break right behind the opening quotes is no content. -/
def skipFirstNewline (text : List Char) : List Char := (afterNewline? text).getD text

/-- Reads a string of any form. -/
def readString? (text : List Char) : Option (List Char × List Char) :=
  match text with
  | '"' :: '"' :: '"' :: text => readBlock? '"' true (text.length + 1) [] (skipFirstNewline text)
  | '"' :: text => readBasic? (text.length + 1) [] text
  | '\'' :: '\'' :: '\'' :: text =>
      readBlock? '\'' false (text.length + 1) [] (skipFirstNewline text)
  | '\'' :: text => readRaw? [] text
  | _ => none

/-- Reads digits of a class. Single underscores may stand between them. -/
def readDigits? (isDigit : Char → Bool) : (fuel : Nat) → List Char → Option (List Char × List Char)
  | 0, _ => none
  | fuel + 1, text =>
      match text with
      | c :: rest =>
          if isDigit c then
            match rest with
            | '_' :: rest => (readDigits? isDigit fuel rest).map fun (more, rest) => (c :: more, rest)
            | d :: _ =>
                if isDigit d then
                  (readDigits? isDigit fuel rest).map fun (more, rest) => (c :: more, rest)
                else some ([c], rest)
            | [] => some ([c], rest)
          else none
      | [] => none

def digits? (text : List Char) : Option (List Char × List Char) :=
  readDigits? Char.isDigit (text.length + 1) text

def numberOf (base : Nat) (digits : List Char) : Nat :=
  digits.foldl (fun total c => base * total + (Text.Hex.value? c).getD 0) 0

/-- Splits a sign off. -/
def readSign (text : List Char) : Bool × List Char :=
  match text with
  | '+' :: text => (false, text)
  | '-' :: text => (true, text)
  | _ => (false, text)

/-- The digits before a point: a zero alone, or a run that begins with another digit. -/
def wholeDigits? (text : List Char) : Option (List Char × List Char) :=
  match text with
  | '0' :: text => some (['0'], text)
  | _ => digits? text

/-- An integer of 64 bits. -/
def boundedInteger? (n : Int) : Option Toml :=
  if -0x8000000000000000 ≤ n ∧ n < 0x8000000000000000 then some (.integer n) else none

def isOctal (c : Char) : Bool := '0' ≤ c && c ≤ '7'
def isBinary (c : Char) : Bool := c = '0' || c = '1'
def isHexadecimal (c : Char) : Bool := (Text.Hex.value? c).isSome

def readRadix? (base : Nat) (isDigit : Char → Bool) (text : List Char) :
    Option (Toml × List Char) := do
  let (digits, rest) ← readDigits? isDigit (text.length + 1) text
  return (← boundedInteger? (numberOf base digits), rest)

def readInteger? (text : List Char) : Option (Toml × List Char) :=
  match text with
  | '0' :: 'x' :: text => readRadix? 16 isHexadecimal text
  | '0' :: 'o' :: text => readRadix? 8 isOctal text
  | '0' :: 'b' :: text => readRadix? 2 isBinary text
  | _ => do
      let (negative, text) := readSign text
      let (digits, rest) ← wholeDigits? text
      let n : Int := numberOf 10 digits
      return (← boundedInteger? (if negative then -n else n), rest)

/-- Reads the digits behind a point, if there is one. -/
def readFraction? : List Char → Option (List Char × List Char)
  | '.' :: text => digits? text
  | text => some ([], text)

/-- Reads an exponent, if there is one. -/
def readExponent? : List Char → Option (Option Int × List Char)
  | c :: text =>
      if c = 'e' || c = 'E' then do
        let (negative, text) := readSign text
        let (digits, rest) ← digits? text
        let n : Int := numberOf 10 digits
        return (some (if negative then -n else n), rest)
      else some (none, c :: text)
  | [] => some (none, [])

/-- Whether decimal digits with an exponent reach the range beyond all finite doubles. -/
def isTooLarge (digits : List Char) (exponent : Int) : Bool :=
  let significant := digits.dropWhile (· = '0')
  let places := significant.length + exponent
  if significant.isEmpty || places < 300 then false
  else if 320 < places then true
  else
    let n := numberOf 10 significant
    let bound := 1 <<< 1024 - 1 <<< 970
    if 0 ≤ exponent then bound ≤ n * Nat.pow 10 exponent.toNat
    else bound * Nat.pow 10 (-exponent).toNat ≤ n

/-- Reads a number with a fraction, an exponent or both, or one of the special numbers. -/
def readReal? (text : List Char) : Option (Toml × List Char) := do
  let (negative, text) := readSign text
  match text with
  | 'i' :: 'n' :: 'f' :: rest => return (.real, rest)
  | 'n' :: 'a' :: 'n' :: rest => return (.real, rest)
  | _ =>
      let (whole, text) ← wholeDigits? text
      let (fraction, text) ← readFraction? text
      let (exponent, rest) ← readExponent? text
      if fraction.isEmpty && exponent.isNone then none
      else if !negative && isTooLarge (whole ++ fraction) (exponent.getD 0 - fraction.length) then none
      else return (.real, rest)

/-- Reads exactly `count` digits as a number of a range. -/
def readField? (count low high : Nat) (text : List Char) : Option (Nat × List Char) :=
  let digits := text.take count
  let n := numberOf 10 digits
  if digits.length = count && digits.all Char.isDigit && low ≤ n && n ≤ high then
    some (n, text.drop count)
  else none

def expect? (c : Char) : List Char → Option (List Char)
  | d :: text => if c = d then some text else none
  | [] => none

def daysIn (year month : Nat) : Nat :=
  if month = 2 then
    if year % 4 = 0 && (year % 100 ≠ 0 || year % 400 = 0) then 29 else 28
  else if month = 4 || month = 6 || month = 9 || month = 11 then 30
  else 31

/-- The text behind a date. -/
def afterDate? (text : List Char) : Option (List Char) := do
  let (year, text) ← readField? 4 0 9999 text
  let (month, text) ← readField? 2 1 12 (← expect? '-' text)
  let (_, text) ← readField? 2 1 (daysIn year month) (← expect? '-' text)
  return text

/-- The text behind a time of day. -/
def afterTime? (text : List Char) : Option (List Char) := do
  let (_, text) ← readField? 2 0 23 text
  let (_, text) ← readField? 2 0 59 (← expect? ':' text)
  let (_, text) ← readField? 2 0 60 (← expect? ':' text)
  match text with
  | '.' :: rest => if (rest.takeWhile Char.isDigit).isEmpty then none else return rest.dropWhile Char.isDigit
  | _ => return text

/-- The text behind an offset from universal time. -/
def afterOffset? (text : List Char) : Option (List Char) :=
  match text with
  | c :: text =>
      if c = 'Z' || c = 'z' then some text
      else if c = '+' || c = '-' then do
        let (_, text) ← readField? 2 0 23 text
        let (_, text) ← readField? 2 0 59 (← expect? ':' text)
        return text
      else none
  | [] => none

/-- The part of a text that stands before its rest. -/
def before (rest text : List Char) : List Char := text.take (text.length - rest.length)

/-- A time of day to nine places of a second, without zeros at the end of the fraction. -/
def writtenTime (time : List Char) : List Char :=
  let fraction := (((time.drop 9).take 9).reverse.dropWhile (· = '0')).reverse
  time.take 8 ++ if fraction.isEmpty then [] else '.' :: fraction

/-- An offset with a capital `Z` for no offset that is written as a letter, and with a plus sign
for one that is written as zero. -/
def writtenOffset : List Char → List Char
  | '-' :: offset => if offset = "00:00".toList then '+' :: offset else '-' :: offset
  | offset => offset.map Char.toUpper

/-- Reads a date, a time of day, or a date and a time with or without an offset. -/
def readMoment? (text : List Char) : Option (Toml × List Char) :=
  match afterDate? text with
  | none =>
      (afterTime? text).map fun rest =>
        (.moment (String.ofList (writtenTime (before rest text))), rest)
  | some afterDate =>
      let date := before afterDate text
      let timed :=
        match afterDate with
        | c :: time =>
            if c = 'T' || c = 't' || c = ' ' then (afterTime? time).map (time, ·) else none
        | [] => none
      match timed with
      | none => some (.moment (String.ofList date), afterDate)
      | some (time, afterTime) =>
          let rest := (afterOffset? afterTime).getD afterTime
          some (.moment (String.ofList (date ++ 'T' :: writtenTime (before afterTime time) ++
            writtenOffset (before rest afterTime))), rest)

/-- Reads whatever begins with a sign or a digit. -/
def readNumber? (text : List Char) : Option (Toml × List Char) :=
  match readMoment? text with
  | some read => some read
  | none =>
      match readReal? text with
      | some read => some read
      | none => readInteger? text

end WebBundle.Toml
