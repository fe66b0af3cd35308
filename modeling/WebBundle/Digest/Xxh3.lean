import WebBundle.Digest.Words

/-!
# The XXH3 digest of 128 bits

The unseeded digest with its standard key. Inputs are digested by one of five rules, chosen by
their length: empty, up to 3, up to 8, up to 16, up to 128, up to 240 bytes, and beyond that by
eight running sums over stripes of 64 bytes.
-/

namespace WebBundle.Digest.Xxh3

def p32a : UInt64 := 0x9E3779B1
def p32b : UInt64 := 0x85EBCA77
def p32c : UInt64 := 0xC2B2AE3D
def p64a : UInt64 := 0x9E3779B185EBCA87
def p64b : UInt64 := 0xC2B2AE3D27D4EB4F
def p64c : UInt64 := 0x165667B19E3779F9
def p64d : UInt64 := 0x85EBCA77C2B2AE63
def p64e : UInt64 := 0x27D4EB2F165667C5

/-- The standard key. -/
def key : ByteArray := ⟨#[
  0xb8, 0xfe, 0x6c, 0x39, 0x23, 0xa4, 0x4b, 0xbe, 0x7c, 0x01, 0x81, 0x2c, 0xf7, 0x21, 0xad, 0x1c,
  0xde, 0xd4, 0x6d, 0xe9, 0x83, 0x90, 0x97, 0xdb, 0x72, 0x40, 0xa4, 0xa4, 0xb7, 0xb3, 0x67, 0x1f,
  0xcb, 0x79, 0xe6, 0x4e, 0xcc, 0xc0, 0xe5, 0x78, 0x82, 0x5a, 0xd0, 0x7d, 0xcc, 0xff, 0x72, 0x21,
  0xb8, 0x08, 0x46, 0x74, 0xf7, 0x43, 0x24, 0x8e, 0xe0, 0x35, 0x90, 0xe6, 0x81, 0x3a, 0x26, 0x4c,
  0x3c, 0x28, 0x52, 0xbb, 0x91, 0xc3, 0x00, 0xcb, 0x88, 0xd0, 0x65, 0x8b, 0x1b, 0x53, 0x2e, 0xa3,
  0x71, 0x64, 0x48, 0x97, 0xa2, 0x0d, 0xf9, 0x4e, 0x38, 0x19, 0xef, 0x46, 0xa9, 0xde, 0xac, 0xd8,
  0xa8, 0xfa, 0x76, 0x3f, 0xe3, 0x9c, 0x34, 0x3f, 0xf9, 0xdc, 0xbb, 0xc7, 0xc7, 0x0b, 0x4f, 0x1d,
  0x8a, 0x51, 0xe0, 0x4b, 0xcd, 0xb4, 0x59, 0x31, 0xc8, 0x9f, 0x7e, 0xc9, 0xd9, 0x78, 0x73, 0x64,
  0xea, 0xc5, 0xac, 0x83, 0x34, 0xd3, 0xeb, 0xc3, 0xc5, 0x81, 0xa0, 0xff, 0xfa, 0x13, 0x63, 0xeb,
  0x17, 0x0d, 0xdd, 0x51, 0xb7, 0xf0, 0xda, 0x49, 0xd3, 0x16, 0x55, 0x26, 0x29, 0xd4, 0x68, 0x9e,
  0x2b, 0x16, 0xbe, 0x58, 0x7d, 0x47, 0xa1, 0xfc, 0x8f, 0xf8, 0xb8, 0xd1, 0x7a, 0xd0, 0x31, 0xce,
  0x45, 0xcb, 0x3a, 0x8f, 0x95, 0x16, 0x04, 0x28, 0xaf, 0xd7, 0xfb, 0xca, 0xbb, 0x4b, 0x40, 0x7e]⟩

def key64 (i : Nat) : UInt64 := read64 key i

/-- The last mixing step of short inputs. -/
def avalancheShort (h : UInt64) : UInt64 :=
  xorShift (xorShift (xorShift h 33 * p64b) 29 * p64c) 32

/-- The last mixing step of all other inputs. -/
def avalanche (h : UInt64) : UInt64 :=
  xorShift (xorShift h 37 * 0x165667919E3779F9) 32

def digestEmpty : Wide :=
  ⟨avalancheShort (key64 64 ^^^ key64 72), avalancheShort (key64 80 ^^^ key64 88)⟩

def digestTo3 (data : ByteArray) (size : Nat) : Wide :=
  let first := byteAt data 0
  let middle := byteAt data (size / 2)
  let last := byteAt data (size - 1)
  let low : UInt64 := (first <<< 16) ||| (middle <<< 24) ||| last ||| (UInt64.ofNat size <<< 8)
  let high : UInt64 := (rotateLeft32 (swap32 low.toUInt32) 13).toUInt64
  ⟨avalancheShort (low ^^^ (read32 key 0 ^^^ read32 key 4)),
   avalancheShort (high ^^^ (read32 key 8 ^^^ read32 key 12))⟩

def digestTo8 (data : ByteArray) (size : Nat) : Wide :=
  let word := read32 data 0 ||| (read32 data (size - 4) <<< 32)
  let m := wideProduct (word ^^^ (key64 16 ^^^ key64 24)) (p64a + (UInt64.ofNat size <<< 2))
  let high := m.high + (m.low <<< 1)
  let low := m.low ^^^ (high >>> 3)
  ⟨xorShift (xorShift low 35 * 0x9FB21C651E98DF25) 28, avalanche high⟩

def digestTo16 (data : ByteArray) (size : Nat) : Wide :=
  let first := read64 data 0
  let last := read64 data (size - 8)
  let m := wideProduct (first ^^^ last ^^^ (key64 32 ^^^ key64 40)) p64a
  let low := m.low + (UInt64.ofNat (size - 1) <<< 54)
  let last := last ^^^ (key64 48 ^^^ key64 56)
  let high := m.high + last + halfProduct last (p32b - 1)
  let p := wideProduct (low ^^^ swap64 high) p64b
  ⟨avalanche p.low, avalanche (p.high + high * p64b)⟩

def mix16 (data : ByteArray) (at' keyAt : Nat) : UInt64 :=
  foldedProduct (read64 data at' ^^^ key64 keyAt) (read64 data (at' + 8) ^^^ key64 (keyAt + 8))

/-- Mixes sixteen bytes at each of two positions into a running pair. -/
def mix32 (sum : Wide) (data : ByteArray) (i j keyAt : Nat) : Wide :=
  ⟨(sum.low + mix16 data i keyAt) ^^^ (read64 data j + read64 data (j + 8)),
   (sum.high + mix16 data j (keyAt + 16)) ^^^ (read64 data i + read64 data (i + 8))⟩

def finish (sum : Wide) (size : Nat) : Wide :=
  ⟨avalanche (sum.low + sum.high),
   0 - avalanche (sum.low * p64a + sum.high * p64d + UInt64.ofNat size * p64b)⟩

def digestTo128 (data : ByteArray) (size : Nat) : Wide :=
  let rounds := (size - 1) / 32
  let mixed := (List.range (rounds + 1)).reverse.foldl
    (fun sum k => mix32 sum data (16 * k) (size - 16 * (k + 1)) (32 * k))
    ⟨UInt64.ofNat size * p64a, 0⟩
  finish mixed size

def digestTo240 (data : ByteArray) (size : Nat) : Wide :=
  let first := (List.range 4).foldl
    (fun sum k => mix32 sum data (32 * k) (32 * k + 16) (32 * k))
    ⟨UInt64.ofNat size * p64a, 0⟩
  let settled : Wide := ⟨avalanche first.low, avalanche first.high⟩
  let middle := (List.range (size / 32 - 4)).foldl
    (fun sum k => mix32 sum data (32 * (k + 4)) (32 * (k + 4) + 16) (3 + 32 * k))
    settled
  finish (mix32 middle data (size - 16) (size - 32) 103) size

/-- Eight running sums. -/
abbrev Lanes := Array UInt64

def startLanes : Lanes := #[p32c, p64a, p64b, p64c, p64d, p32b, p64e, p32a]

def lane (lanes : Lanes) (i : Nat) : UInt64 := lanes.getD i 0

/-- Adds a stripe of 64 bytes: each lane gains the plain word of its neighbour and the product of
the halves of its own keyed word. -/
def addStripe (data : ByteArray) (at' keyAt : Nat) (lanes : Lanes) : Lanes :=
  Array.ofFn fun (i : Fin 8) =>
    let neighbour := if i.val % 2 = 0 then i.val + 1 else i.val - 1
    let keyed := read64 data (at' + 8 * i.val) ^^^ key64 (keyAt + 8 * i.val)
    lane lanes i.val + read64 data (at' + 8 * neighbour) + halfProduct keyed (keyed >>> 32)

/-- Scrambles the lanes after a block of sixteen stripes. -/
def scramble (lanes : Lanes) : Lanes :=
  Array.ofFn fun (i : Fin 8) =>
    (xorShift (lane lanes i.val) 47 ^^^ key64 (128 + 8 * i.val)) * p32a

def addStripes (data : ByteArray) (at' count : Nat) (lanes : Lanes) : Lanes :=
  (List.range count).foldl (fun sums k => addStripe data (at' + 64 * k) (8 * k) sums) lanes

def mergeLanes (lanes : Lanes) (keyAt : Nat) (start : UInt64) : UInt64 :=
  avalanche ((List.range 4).foldl
    (fun sum k => sum + foldedProduct (lane lanes (2 * k) ^^^ key64 (keyAt + 16 * k))
      (lane lanes (2 * k + 1) ^^^ key64 (keyAt + 16 * k + 8)))
    start)

def digestLong (data : ByteArray) (size : Nat) : Wide :=
  let blocks := (size - 1) / 1024
  let whole := (List.range blocks).foldl
    (fun lanes b => scramble (addStripes data (1024 * b) 16 lanes)) startLanes
  let stripes := ((size - 1) - 1024 * blocks) / 64
  let lanes := addStripe data (size - 64) 121 (addStripes data (1024 * blocks) stripes whole)
  ⟨mergeLanes lanes 11 (UInt64.ofNat size * p64a),
   mergeLanes lanes 117 (~~~(UInt64.ofNat size * p64b))⟩

def digest (data : ByteArray) : Wide :=
  let size := data.size
  if size = 0 then digestEmpty
  else if size ≤ 3 then digestTo3 data size
  else if size ≤ 8 then digestTo8 data size
  else if size ≤ 16 then digestTo16 data size
  else if size ≤ 128 then digestTo128 data size
  else if size ≤ 240 then digestTo240 data size
  else digestLong data size

end WebBundle.Digest.Xxh3
