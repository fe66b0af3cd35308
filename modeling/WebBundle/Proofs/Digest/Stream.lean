import Mathlib
import WebBundle.Digest.Content
import WebBundle.Proofs.Text.Hex

/-!
# Streams of parts

The length before every part keeps the parts of a stream apart: if only the first part differs, so
does the stream. As long as eight bytes can hold every length, the stream tells all its parts. The
digits of a digest tell the digest.
-/

namespace WebBundle

/-! ## Bytes of texts -/

theorem toList_loop_eq (bytes : ByteArray) (place : Nat) (read : List UInt8) :
    ByteArray.toList.loop bytes place read = read.reverse ++ bytes.data.toList.drop place := by
  fun_induction ByteArray.toList.loop bytes place read with
  | case1 place read below ih =>
    have inside : place < bytes.data.toList.length := by simpa using below
    rw [ih, List.drop_eq_getElem_cons inside]
    simp [ByteArray.get!, below]
  | case2 place read beyond =>
    rw [List.drop_eq_nil_of_le (by simpa using Nat.le_of_not_lt beyond), List.append_nil]

theorem toList_bytes (bytes : ByteArray) : bytes.toList = bytes.data.toList := by
  simp [ByteArray.toList, toList_loop_eq]

theorem toUTF8_toList_inj {text other : String} :
    text.toUTF8.toList = other.toUTF8.toList ↔ text = other := by
  rw [toList_bytes, toList_bytes, Array.toList_inj]
  constructor
  · exact fun same => String.toByteArray_inj.1 (ByteArray.ext same)
  · exact fun same => by rw [same]

/-! ## Lengths -/

namespace Digest

/-- The number that some bytes write, the least significant first. -/
def ofLittleEndian : List UInt8 → Nat
  | [] => 0
  | byte :: bytes => byte.toNat + 256 * ofLittleEndian bytes

theorem ofLittleEndian_littleEndian {n : Nat} (short : n < 2 ^ 64) :
    ofLittleEndian (littleEndian n) = n := by
  simp only [littleEndian, List.map_cons, List.map_nil, ofLittleEndian, UInt8.toNat_ofNat',
    Nat.shiftRight_eq_div_pow]
  omega

theorem littleEndian_inj {n m : Nat} (short : n < 2 ^ 64) (short' : m < 2 ^ 64)
    (same : littleEndian n = littleEndian m) : n = m := by
  rw [← ofLittleEndian_littleEndian short, same, ofLittleEndian_littleEndian short']

end Digest

/-! ## Streams -/

namespace ContentDigest

theorem framed_inj {part other : List UInt8} : framed part = framed other ↔ part = other := by
  constructor
  · intro same
    have lengths : (Digest.littleEndian part.length).length =
        (Digest.littleEndian other.length).length := rfl
    exact (List.append_inj same lengths).2
  · exact fun same => by rw [same]

theorem stream_cons_inj {part other : List UInt8} {rest : List (List UInt8)} :
    stream (part :: rest) = stream (other :: rest) ↔ part = other := by
  rw [stream, stream, List.flatMap_cons, List.flatMap_cons, List.append_left_inj, framed_inj]

/-- Eight bytes can hold the length of the part. -/
def IsShort (part : List UInt8) : Prop := part.length < 2 ^ 64

/-- The first part of a stream ends where its length says. -/
theorem framed_append_inj {part other rest rest' : List UInt8} (short : IsShort part)
    (short' : IsShort other) (same : framed part ++ rest = framed other ++ rest') :
    part = other ∧ rest = rest' := by
  rw [framed, framed, List.append_assoc, List.append_assoc] at same
  have lengths : (Digest.littleEndian part.length).length =
      (Digest.littleEndian other.length).length := rfl
  obtain ⟨sameLength, sameRest⟩ := List.append_inj same lengths
  exact List.append_inj sameRest (Digest.littleEndian_inj short short' sameLength)

theorem stream_inj {parts others : List (List UInt8)} (short : ∀ part ∈ parts, IsShort part)
    (short' : ∀ part ∈ others, IsShort part) (same : stream parts = stream others) :
    parts = others := by
  induction parts generalizing others with
  | nil =>
      cases others with
      | nil => rfl
      | cons other others => cases same
  | cons part parts ih =>
      cases others with
      | nil => cases same
      | cons other others =>
          rw [List.forall_mem_cons] at short short'
          rw [stream, stream, List.flatMap_cons, List.flatMap_cons] at same
          obtain ⟨rfl, sameRest⟩ := framed_append_inj short.1 short'.1 same
          rw [ih short.2 short'.2 sameRest]

end ContentDigest

/-! ## Written digests -/

namespace Digest

theorem ofLittleEndian_reverse_bigEndian (word : UInt64) :
    ofLittleEndian (bigEndian word).reverse = word.toNat := by
  have bound := word.toNat_lt
  simp only [bigEndian, List.map_cons, List.map_nil, List.reverse_cons, List.reverse_nil,
    List.nil_append, List.cons_append, ofLittleEndian, UInt64.toNat_toUInt8,
    UInt64.toNat_shiftRight, Nat.shiftRight_eq_div_pow]
  simp
  omega

theorem bigEndian_injective : Function.Injective bigEndian := by
  intro word other same
  have values := congrArg (fun bytes => ofLittleEndian bytes.reverse) same
  simp only [ofLittleEndian_reverse_bigEndian] at values
  exact UInt64.toNat_inj.1 values

end Digest

namespace ContentDigest

theorem bytes_injective : Function.Injective bytes := by
  rintro ⟨low, high⟩ ⟨low', high'⟩ same
  have lengths : (Digest.bigEndian high).length = (Digest.bigEndian high').length := rfl
  obtain ⟨sameHigh, sameLow⟩ := List.append_inj same lengths
  obtain rfl : high = high' := Digest.bigEndian_injective sameHigh
  obtain rfl : low = low' := Digest.bigEndian_injective sameLow
  rfl

theorem hex_injective : Function.Injective hex := by
  intro digest other same
  exact bytes_injective (Text.Hex.encode_injective (String.ofList_injective same))

end ContentDigest

end WebBundle
