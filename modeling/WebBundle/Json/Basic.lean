import WebBundle.Text.Hex

/-!
# JSON values and their text

A value keeps the fields of an object in the order in which they are written, repeated names
included. There are two written forms: one without blanks, and one with a line for every item and
two blanks for every level. Inside a string the quote, the backslash and the control characters
are escaped, and everything else stands for itself. A text may write a string that names half of a
surrogate pair; such a string, and an object with such a name, is read as a garbled value, which is
written as `null`.
-/

namespace WebBundle

inductive Json where
  | null
  | bool (value : Bool)
  | int (value : Int)
  | real (written : String)
  | string (value : String)
  | garbled
  | array (items : List Json)
  | object (fields : List (String × Json))

namespace Json

/-- The written form of one character of a string. -/
def escape (c : Char) : List Char :=
  if c = '"' then ['\\', '"']
  else if c = '\\' then ['\\', '\\']
  else if c.toNat = 8 then ['\\', 'b']
  else if c.toNat = 9 then ['\\', 't']
  else if c.toNat = 10 then ['\\', 'n']
  else if c.toNat = 12 then ['\\', 'f']
  else if c.toNat = 13 then ['\\', 'r']
  else if c.toNat < 0x20 then '\\' :: 'u' :: Text.Hex.fixed 4 c.toNat
  else [c]

def quote (text : List Char) : List Char := '"' :: text.flatMap escape ++ ['"']

/-- The written form of a string. -/
def quoted (text : String) : String := String.ofList (quote text.toList)

/-- The written form of a value that has no parts. -/
def atom : Json → List Char
  | .null => "null".toList
  | .bool true => "true".toList
  | .bool false => "false".toList
  | .int value => (toString value).toList
  | .real written => written.toList
  | .string value => quote value.toList
  | .garbled => "null".toList
  | .array _ => ['[', ']']
  | .object _ => ['{', '}']

mutual

/-- The written form without blanks. -/
def compact : Json → List Char
  | .array items => '[' :: compactItems items ++ [']']
  | .object fields => '{' :: compactFields fields ++ ['}']
  | .null => atom .null
  | .bool value => atom (.bool value)
  | .int value => atom (.int value)
  | .real written => atom (.real written)
  | .string value => atom (.string value)
  | .garbled => atom .garbled

def compactItems : List Json → List Char
  | [] => []
  | [item] => compact item
  | item :: items => compact item ++ ',' :: compactItems items

def compactFields : List (String × Json) → List Char
  | [] => []
  | [(name, value)] => quote name.toList ++ ':' :: compact value
  | (name, value) :: fields =>
      quote name.toList ++ ':' :: compact value ++ ',' :: compactFields fields

end

def render (value : Json) : String := String.ofList (compact value)

/-- A line break and the indentation of a level. -/
def newline (level : Nat) : List Char := '\n' :: List.replicate (2 * level) ' '

mutual

/-- The written form with a line for every item, below a given level. -/
def spread (level : Nat) : Json → List Char
  | .array [] => atom (.array [])
  | .array items => '[' :: spreadItems (level + 1) items ++ newline level ++ [']']
  | .object [] => atom (.object [])
  | .object fields => '{' :: spreadFields (level + 1) fields ++ newline level ++ ['}']
  | .null => atom .null
  | .bool value => atom (.bool value)
  | .int value => atom (.int value)
  | .real written => atom (.real written)
  | .string value => atom (.string value)
  | .garbled => atom .garbled

def spreadItems (level : Nat) : List Json → List Char
  | [] => []
  | [item] => newline level ++ spread level item
  | item :: items => newline level ++ spread level item ++ ',' :: spreadItems level items

def spreadFields (level : Nat) : List (String × Json) → List Char
  | [] => []
  | [(name, value)] => newline level ++ quote name.toList ++ ':' :: ' ' :: spread level value
  | (name, value) :: fields =>
      newline level ++ quote name.toList ++ ':' :: ' ' :: spread level value ++
        ',' :: spreadFields level fields

end

def renderPretty (value : Json) : String := String.ofList (spread 0 value)

/-- The values of all fields of a name. -/
def valuesOf (name : String) (fields : List (String × Json)) : List Json :=
  fields.filterMap fun (key, value) => if key = name then some value else none

/-- A string, or nothing for `null`. -/
def optionalText? : Json → Option (Option String)
  | .null => some none
  | .string value => some (some value)
  | _ => none

def text? : Json → Option String
  | .string value => some value
  | _ => none

def texts? : Json → Option (List String)
  | .array items => items.mapM text?
  | _ => none

/-- A number from zero to a bound. -/
def natBelow? (bound : Nat) : Json → Option Nat
  | .int value => if 0 ≤ value ∧ value < bound then some value.toNat else none
  | _ => none

end Json

end WebBundle
