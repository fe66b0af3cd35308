import WebBundle.Digest.Content
import WebBundle.Text.Substring

/-!
# File names of chunks

A pattern gives the file name of a chunk. `[name]` stands for the name of the chunk,
`[contenthash]` for its digest and `[contenthash:N]` for the first `N` digits of it. Every other
text stands for itself, an open bracket without its partner included.
-/

namespace WebBundle.Chunk

/-- A piece of a pattern: plain text, or what stands between brackets. -/
inductive PatternPiece where
  | plain (text : List Char)
  | slot (text : List Char)
  deriving DecidableEq, Repr

/-- The pieces of a pattern. Fuel bounds the number of slots. -/
def patternPieces : (fuel : Nat) → List Char → List PatternPiece
  | 0, text => [.plain text]
  | fuel + 1, text =>
      match Text.splitOnce? (· = '[') text with
      | none => [.plain text]
      | some (before, rest) =>
          match Text.splitOnce? (· = ']') rest with
          | none => [.plain text]
          | some (slot, rest) => .plain before :: .slot slot :: patternPieces fuel rest

/-- A decimal number of at most 64 bits with an optional plus sign. -/
def count? (text : List Char) : Option Nat :=
  let digits := if text.head? = some '+' then text.tail else text
  if digits.isEmpty || !digits.all Char.isDigit then none
  else
    let n := digits.foldl (fun total c => 10 * total + (c.toNat - '0'.toNat)) 0
    if n < UInt64.size then some n else none

/-- What a slot stands for. -/
def fillSlot (name : String) (digest : ContentDigest) (slot : List Char) : List Char :=
  if slot = "name".toList then name.toList
  else if slot = "contenthash".toList then digest.hex.toList
  else
    match Text.afterPart? "contenthash:".toList slot with
    | some digits =>
        match count? digits with
        | some size => (digest.short size).toList
        | none => '[' :: slot ++ [']']
    | none => '[' :: slot ++ [']']

def fillPiece (name : String) (digest : ContentDigest) : PatternPiece → List Char
  | .plain text => text
  | .slot text => fillSlot name digest text

def fileName (pattern name : String) (digest : ContentDigest) : String :=
  let text := pattern.toList
  String.ofList ((patternPieces text.length text).flatMap (fillPiece name digest))

end WebBundle.Chunk
