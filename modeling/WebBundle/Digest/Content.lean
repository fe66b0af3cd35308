import WebBundle.Digest.Xxh3
import WebBundle.Text.Hex

/-!
# Content digests

The digest that names output files, module keys and precache revisions: 128 bits, written as 32
hexadecimal digits. Input that is assembled from parts is digested as one stream in which every
part is preceded by its length, so that different lists of parts give different streams.
-/

namespace WebBundle

/-- The digest of some content. -/
structure ContentDigest where
  value : Digest.Wide
  deriving DecidableEq

namespace ContentDigest

def ofBytes (data : ByteArray) : ContentDigest := ⟨Digest.Xxh3.digest data⟩

/-- The sixteen bytes, most significant first. -/
def bytes (digest : ContentDigest) : List UInt8 :=
  Digest.bigEndian digest.value.high ++ Digest.bigEndian digest.value.low

def hex (digest : ContentDigest) : String := String.ofList (Text.Hex.encode digest.bytes)

/-- The first `size` digits, all 32 if fewer exist. -/
def short (digest : ContentDigest) (size : Nat) : String :=
  String.ofList ((Text.Hex.encode digest.bytes).take size)

/-- The first two bytes, for messages. -/
def abbreviated (digest : ContentDigest) : String :=
  "ContentHash(" ++ digest.short 4 ++ "..)"

/-- One part of a stream: its length in eight bytes, then its bytes. -/
def framed (part : List UInt8) : List UInt8 := Digest.littleEndian part.length ++ part

/-- The stream of a list of parts. -/
def stream (parts : List (List UInt8)) : List UInt8 := parts.flatMap framed

def ofParts (parts : List (List UInt8)) : ContentDigest :=
  ofBytes ⟨(stream parts).toArray⟩

/-- The digest of a list of texts. -/
def ofTexts (texts : List String) : ContentDigest :=
  ofParts (texts.map fun text => text.toUTF8.toList)

end ContentDigest

end WebBundle
