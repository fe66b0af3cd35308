import WebBundle.Toml.Scalar

/-!
# Reading TOML documents

A document is a list of lines: blank ones, comments, headers and key-value pairs. Values nest in
arrays and inline tables up to a fixed depth, and the path of a key has a bound of the same size.
-/

namespace WebBundle.Toml

/-- Neither a path nor a nesting reaches this number of parts. -/
def depthBound : Nat := 80

/-- The text behind an optional comment. -/
def skipComment : List Char → List Char
  | '#' :: text => text.dropWhile isPlain
  | text => text

/-- The text of the next line, if only blanks and a comment stand before it. -/
def nextLine? (text : List Char) : Option (List Char) :=
  match skipComment (skipSpace text) with
  | [] => some []
  | text => afterNewline? text

/-- Skips blanks, comments and line breaks. -/
def skipLines : (fuel : Nat) → List Char → List Char
  | 0, text => text
  | fuel + 1, text =>
      let text := skipSpace text
      match text with
      | '#' :: _ =>
          match afterNewline? (skipComment text) with
          | some text => skipLines fuel text
          | none => text
      | _ =>
          match afterNewline? text with
          | some text => skipLines fuel text
          | none => text

def isKeyChar (c : Char) : Bool := c.isAlphanum || c = '_' || c = '-'

/-- Reads one part of a key: a bare word, or a string on one line. -/
def readKeyPart? (text : List Char) : Option (String × List Char) :=
  match text with
  | '"' :: text => (readBasic? (text.length + 1) [] text).map fun (s, rest) => (String.ofList s, rest)
  | '\'' :: text => (readRaw? [] text).map fun (s, rest) => (String.ofList s, rest)
  | _ =>
      match text.takeWhile isKeyChar with
      | [] => none
      | word => some (String.ofList word, text.dropWhile isKeyChar)

/-- Reads the parts of a key, blanks around every part. -/
def readKeyParts? : (fuel : Nat) → List Char → Option (List String × List Char)
  | 0, _ => none
  | fuel + 1, text => do
      let (part, text) ← readKeyPart? (skipSpace text)
      match skipSpace text with
      | '.' :: text =>
          let (parts, text) ← readKeyParts? fuel text
          return (part :: parts, text)
      | text => return ([part], text)

/-- Reads a key as its path and its last part. -/
def readKey? (text : List Char) : Option ((List String × String) × List Char) := do
  let (parts, rest) ← readKeyParts? (text.length + 1) text
  if depthBound ≤ parts.length then none
  else
    match parts.reverse with
    | last :: path => return ((path.reverse, last), rest)
    | [] => none

mutual

/-- Reads a value. `room` is the nesting that is still allowed; every value, item and field takes
one unit of fuel. -/
def readValue? : (fuel room : Nat) → List Char → Option (Toml × List Char)
  | 0, _, _ => none
  | fuel + 1, room, text =>
      match text with
      | '"' :: _ => (readString? text).map fun (s, rest) => (.string (String.ofList s), rest)
      | '\'' :: _ => (readString? text).map fun (s, rest) => (.string (String.ofList s), rest)
      | '[' :: text => if room = 0 then none else readItems? fuel (room - 1) [] text
      | '{' :: text =>
          if room = 0 then none
          else
            match skipSpace text with
            | '}' :: text => some (.table [], text)
            | text => readFields? fuel (room - 1) Node.empty text
      | 't' :: 'r' :: 'u' :: 'e' :: text => some (.bool true, text)
      | 'f' :: 'a' :: 'l' :: 's' :: 'e' :: text => some (.bool false, text)
      | text => readNumber? text

/-- Reads the items of an array behind its bracket or a comma. -/
def readItems? : (fuel room : Nat) → List Toml → List Char → Option (Toml × List Char)
  | 0, _, _, _ => none
  | fuel + 1, room, items, text =>
      match skipLines fuel text with
      | ']' :: text => some (.array items.reverse, text)
      | text =>
          match readValue? fuel room text with
          | none => none
          | some (item, text) =>
              match skipLines fuel text with
              | ',' :: text => readItems? fuel room (item :: items) text
              | ']' :: text => some (.array (item :: items).reverse, text)
              | _ => none

/-- Reads the fields of an inline table behind its brace or a comma. -/
def readFields? : (fuel room : Nat) → Node → List Char → Option (Toml × List Char)
  | 0, _, _, _ => none
  | fuel + 1, room, node, text =>
      match readKey? text with
      | none => none
      | some ((path, key), text) =>
          match text with
          | '=' :: text =>
              match readValue? fuel room (skipSpace text) with
              | none => none
              | some (value, text) =>
                  match node.insert path key value with
                  | none => none
                  | some node =>
                      match skipSpace text with
                      | ',' :: text => readFields? fuel room node text
                      | '}' :: text => some (node.toToml, text)
                      | _ => none
          | _ => none

end

/-- A document under construction: its tree, and the path of the table that keys now go into. -/
structure Document where
  root : Node
  path : List String

/-- Reads a header behind its first bracket. -/
def readHeader? (document : Document) (text : List Char) : Option (Document × List Char) :=
  match text with
  | '[' :: text => do
      let ((path, key), text) ← readKey? text
      match text with
      | ']' :: ']' :: text => return (⟨← document.root.openElement path key, path ++ [key]⟩, text)
      | _ => none
  | _ => do
      let ((path, key), text) ← readKey? text
      match text with
      | ']' :: text => return (⟨← document.root.openTable path key, path ++ [key]⟩, text)
      | _ => none

/-- Reads a key and its value into the current table. -/
def readPair? (document : Document) (text : List Char) : Option (Document × List Char) := do
  let ((path, key), text) ← readKey? text
  let (value, rest) ← readValue? (text.length + 1) (depthBound - 1) (skipSpace (← expect? '=' text))
  let root ← document.root.changeAt false (Node.insert path key value) document.path
  return ({ document with root }, rest)

/-- Reads the lines of a document. Every line takes at least one character. -/
def readLines? : (fuel : Nat) → Document → List Char → Option Document
  | 0, _, _ => none
  | fuel + 1, document, text =>
      match skipSpace text with
      | [] => some document
      | '#' :: text => (nextLine? ('#' :: text)).bind (readLines? fuel document)
      | '[' :: text =>
          match readHeader? document text with
          | some (document, text) => (nextLine? text).bind (readLines? fuel document)
          | none => none
      | text =>
          match afterNewline? text with
          | some text => readLines? fuel document text
          | none =>
              match readPair? document text with
              | some (document, text) => (nextLine? text).bind (readLines? fuel document)
              | none => none

/-- A byte order mark may stand before the first line. -/
def withoutMark : List Char → List Char
  | c :: text => if c.toNat = 0xFEFF then text else c :: text
  | [] => []

/-- The table that a document writes. -/
def parse? (text : String) : Option Toml :=
  let text := withoutMark text.toList
  (readLines? (text.length + 1) ⟨Node.empty, []⟩ text).map fun document => document.root.toToml

end WebBundle.Toml
