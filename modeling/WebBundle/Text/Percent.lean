import WebBundle.Text.Hex

/-!
# Percent escapes

A percent sign before two hexadecimal digits stands for the byte that they write. Every other
percent sign stands for itself.
-/

namespace WebBundle.Text.Percent

def percent : UInt8 := UInt8.ofNat '%'.toNat

/-- The byte that two hexadecimal digits write. -/
def escaped? (high low : UInt8) : Option UInt8 := do
  let high ← Hex.value? (Char.ofNat high.toNat)
  let low ← Hex.value? (Char.ofNat low.toNat)
  return UInt8.ofNat (16 * high + low)

/-- The bytes behind the escapes. -/
def decode : List UInt8 → List UInt8
  | [] => []
  | [b] => [b]
  | [a, b] => [a, b]
  | a :: b :: c :: rest =>
      if a = percent then
        match escaped? b c with
        | some byte => byte :: decode rest
        | none => a :: decode (b :: c :: rest)
      else a :: decode (b :: c :: rest)

end WebBundle.Text.Percent
