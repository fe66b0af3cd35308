/-!
# Words of a digest

Little-endian reads from a byte array, rotations and byte swaps of machine words, and the wide
product of two words as its low and its high half.
-/

namespace WebBundle.Digest

/-- A 128-bit value as two words. -/
structure Wide where
  low : UInt64
  high : UInt64
  deriving DecidableEq

/-- The byte at a position, zero past the end. -/
def byteAt (data : ByteArray) (i : Nat) : UInt64 :=
  if h : i < data.size then data[i].toUInt64 else 0

def read32 (data : ByteArray) (i : Nat) : UInt64 :=
  byteAt data i ||| (byteAt data (i + 1) <<< 8) ||| (byteAt data (i + 2) <<< 16) |||
  (byteAt data (i + 3) <<< 24)

def read64 (data : ByteArray) (i : Nat) : UInt64 :=
  read32 data i ||| (read32 data (i + 4) <<< 32)

def swap32 (x : UInt32) : UInt32 :=
  ((x <<< 24) ||| ((x <<< 8) &&& (0x00FF0000 : UInt32))) |||
  (((x >>> 8) &&& (0x0000FF00 : UInt32)) ||| (x >>> 24))

def swap64 (x : UInt64) : UInt64 :=
  ((swap32 x.toUInt32).toUInt64 <<< 32) ||| (swap32 (x >>> 32).toUInt32).toUInt64

def rotateLeft32 (x n : UInt32) : UInt32 := (x <<< n) ||| (x >>> (32 - n))

/-- The full product of two words. -/
def wideProduct (a b : UInt64) : Wide :=
  let p := a.toNat * b.toNat
  ⟨UInt64.ofNat p, UInt64.ofNat (p / UInt64.size)⟩

/-- The two halves of the full product, combined by exclusive or. -/
def foldedProduct (a b : UInt64) : UInt64 :=
  let p := wideProduct a b
  p.low ^^^ p.high

/-- The product of the low halves of two words. -/
def halfProduct (a b : UInt64) : UInt64 := (a &&& 0xFFFFFFFF) * (b &&& 0xFFFFFFFF)

def xorShift (x : UInt64) (n : UInt64) : UInt64 := x ^^^ (x >>> n)

/-- The big-endian bytes of a word. -/
def bigEndian (x : UInt64) : List UInt8 :=
  ([56, 48, 40, 32, 24, 16, 8, 0] : List UInt64).map fun n => (x >>> n).toUInt8

/-- The little-endian bytes of a number of at most 64 bits. -/
def littleEndian (n : Nat) : List UInt8 :=
  [0, 8, 16, 24, 32, 40, 48, 56].map fun k => UInt8.ofNat (n >>> k)

end WebBundle.Digest
