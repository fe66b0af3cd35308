/-!
# Reading bytes as text

Bytes are read as UTF-8. The strict reader refuses malformed bytes. The lenient reader puts one
replacement character in the place of every longest piece that begins a character and cannot be
completed, and in the place of every byte that begins none.
-/

namespace WebBundle.Text.Utf8

/-- A character of which some bytes were read: `owed` more are missing, and the next one lies
between `low` and `high`. -/
structure Pending where
  value : Nat
  owed : Nat
  low : Nat
  high : Nat

def replacement : Char := Char.ofNat 0xFFFD

/-- Reads the first byte of a character. -/
def start (b : Nat) : List Char × Option Pending :=
  if b < 0x80 then ([Char.ofNat b], none)
  else if 0xC2 ≤ b && b ≤ 0xDF then ([], some ⟨b - 0xC0, 1, 0x80, 0xBF⟩)
  else if b = 0xE0 then ([], some ⟨0, 2, 0xA0, 0xBF⟩)
  else if b = 0xED then ([], some ⟨0xD, 2, 0x80, 0x9F⟩)
  else if 0xE1 ≤ b && b ≤ 0xEF then ([], some ⟨b - 0xE0, 2, 0x80, 0xBF⟩)
  else if b = 0xF0 then ([], some ⟨0, 3, 0x90, 0xBF⟩)
  else if b = 0xF4 then ([], some ⟨4, 3, 0x80, 0x8F⟩)
  else if 0xF1 ≤ b && b ≤ 0xF3 then ([], some ⟨b - 0xF0, 3, 0x80, 0xBF⟩)
  else ([replacement], none)

/-- Reads one byte: the characters that are complete with it, and the character that is open
after it. -/
def read : Option Pending → Nat → List Char × Option Pending
  | none, b => start b
  | some open', b =>
      if open'.low ≤ b && b ≤ open'.high then
        let value := open'.value * 64 + (b - 0x80)
        if open'.owed ≤ 1 then ([Char.ofNat value], none)
        else ([], some ⟨value, open'.owed - 1, 0x80, 0xBF⟩)
      else
        let (done, next) := start b
        (replacement :: done, next)

def readAll : Option Pending → List UInt8 → List Char
  | none, [] => []
  | some _, [] => [replacement]
  | open', b :: bytes =>
      let (done, next) := read open' b.toNat
      done ++ readAll next bytes

/-- The text of some bytes, with replacement characters where they are malformed. -/
def lenient (bytes : ByteArray) : String :=
  match String.fromUTF8? bytes with
  | some text => text
  | none => String.ofList (readAll none bytes.toList)

/-- The text of some bytes, if they are well formed. -/
def strict? (bytes : ByteArray) : Option String := String.fromUTF8? bytes

end WebBundle.Text.Utf8
