import Mathlib.Data.List.Basic
import WebBundle.Proofs.Digest.Stream
import WebBundle.Proofs.Text.Hex
import WebBundle.Text.Percent
import WebBundle.Text.Utf8

/-!
# Bytes of characters

An ASCII character is one byte, and all bytes of any other character are above the ASCII range. So a
byte of that range is never a part of a longer character, and a text without percent signs stands
for itself.

A text is escaped character by character: what means nothing in an address stays, and every other
character is written as the escapes of its bytes. Decoding gives back the bytes of the text,
whatever its characters are. Bytes that are written one after the other are decoded one after the
other, if the second ones do not begin with a digit of an escape.
-/

namespace WebBundle.Text

theorem toList_toUTF8 (text : String) :
    text.toUTF8.toList = text.toList.flatMap String.utf8EncodeChar := by
  have bytes : text.toUTF8 = text.toList.utf8Encode := by
    rw [← String.toByteArray_ofList, String.ofList_toList]
    rfl
  rw [bytes, toList_bytes, List.utf8Encode]
  exact List.toList_data_toByteArray

theorem utf8EncodeChar_cases (c : Char) :
    c.toNat < 0x80 ∧ String.utf8EncodeChar c = [UInt8.ofNat c.toNat] ∨
      0x80 ≤ c.toNat ∧ ∀ b ∈ String.utf8EncodeChar c, 0x80 ≤ b.toNat := by
  have large {n : Nat} (low : 0x80 ≤ n) (high : n < 0x100) : 0x80 ≤ (UInt8.ofNat n).toNat := by
    rwa [UInt8.toNat_ofNat', Nat.mod_eq_of_lt high]
  by_cases ascii : c.val.toNat ≤ 0x7f
  · exact .inl ⟨Nat.lt_succ_of_le ascii, if_pos ascii⟩
  · refine .inr ⟨Nat.lt_of_not_le ascii, ?_⟩
    unfold String.utf8EncodeChar
    dsimp only
    rw [if_neg ascii]
    split_ifs <;> simp only [List.forall_mem_cons, List.not_mem_nil, false_imp_iff, forall_const,
      and_true]
    · exact ⟨large (by omega) (by omega), large (by omega) (by omega)⟩
    · exact ⟨large (by omega) (by omega), large (by omega) (by omega),
        large (by omega) (by omega)⟩
    · exact ⟨large (by omega) (by omega), large (by omega) (by omega),
        large (by omega) (by omega), large (by omega) (by omega)⟩

/-! ## Texts without escapes -/

theorem Utf8.strict?_toUTF8 (text : String) : Utf8.strict? text.toUTF8 = some text := by
  rw [Utf8.strict?, String.fromUTF8?]
  exact dif_pos text.isValidUTF8

theorem Utf8.strict?_eq_some_iff {bytes : ByteArray} {text : String} :
    Utf8.strict? bytes = some text ↔ bytes = text.toUTF8 := by
  constructor
  · intro reads
    rw [Utf8.strict?, String.fromUTF8?] at reads
    split at reads
    next valid =>
      rw [← Option.some.inj reads]
      rfl
    next => cases reads
  · rintro rfl
    exact strict?_toUTF8 text

namespace Percent

theorem percent_not_mem_utf8EncodeChar {c : Char} (other : c ≠ '%') :
    percent ∉ String.utf8EncodeChar c := by
  intro member
  rcases utf8EncodeChar_cases c with ⟨ascii, single⟩ | ⟨_, wide⟩
  · rw [single, List.mem_singleton] at member
    have value := congrArg UInt8.toNat member
    rw [UInt8.toNat_ofNat', Nat.mod_eq_of_lt (by omega)] at value
    exact other (Char.ext (UInt32.toNat_inj.1 value.symm))
  · exact absurd (wide percent member) (by decide)

/-- The bytes that are written by some bytes: an escape writes one byte, and a byte that begins no
escape writes itself. -/
inductive Writes : (written bytes : List UInt8) → Prop where
  | nil : Writes [] []
  | escape {high low byte : UInt8} {written bytes : List UInt8}
      (isByte : escaped? high low = some byte) (rest : Writes written bytes) :
      Writes (percent :: high :: low :: written) (byte :: bytes)
  | plain {byte : UInt8} {written bytes : List UInt8}
      (noEscape : byte = percent → ∀ high low rest, written = high :: low :: rest →
        escaped? high low = none) (rest : Writes written bytes) :
      Writes (byte :: written) (byte :: bytes)

/-- A byte that fewer than two bytes follow writes itself. -/
theorem Writes.plain_of_short {byte : UInt8} {written bytes : List UInt8}
    (short : written.length < 2) (rest : Writes written bytes) :
    Writes (byte :: written) (byte :: bytes) := by
  refine .plain (fun _ high low others same => ?_) rest
  rw [same, List.length_cons, List.length_cons] at short
  omega

theorem writes_decode (written : List UInt8) : Writes written (decode written) := by
  fun_induction decode written with
  | case1 => exact .nil
  | case2 => exact .plain_of_short Nat.zero_lt_two .nil
  | case3 => exact .plain_of_short Nat.one_lt_two (.plain_of_short Nat.zero_lt_two .nil)
  | case4 _ _ _ _ isByte ih => exact .escape isByte ih
  | case5 _ _ _ noByte ih =>
      refine .plain (fun _ high low rest same => ?_) ih
      obtain ⟨rfl, rest⟩ := List.cons.inj same
      obtain ⟨rfl, _⟩ := List.cons.inj rest
      exact noByte
  | case6 _ _ _ _ other ih => exact .plain (fun isPercent => absurd isPercent other) ih

theorem Writes.decode_eq {written bytes : List UInt8} (writes : Writes written bytes) :
    decode written = bytes := by
  induction writes with
  | nil => rfl
  | escape isByte _ ih => rw [decode, if_pos rfl, isByte, ih]
  | @plain byte written bytes noEscape _ ih =>
      match written with
      | [] => rw [← ih]; rfl
      | [other] => rw [← ih]; rfl
      | high :: low :: rest =>
          rw [decode]
          split
          next isPercent =>
            rw [noEscape isPercent high low rest rfl, ih]
          next => rw [ih]

theorem decode_eq_iff {written bytes : List UInt8} :
    decode written = bytes ↔ Writes written bytes :=
  ⟨fun same => same ▸ writes_decode written, Writes.decode_eq⟩

end Percent

end WebBundle.Text

namespace WebBundle.Text.Percent

/-! ## Escaped texts -/

/-- Letters, digits and the marks that mean nothing in an address. -/
def isUnreserved (c : Char) : Bool := c.isAlphanum || c ∈ ['-', '_', '.', '~']

/-- The escape of a byte, in capital letters. -/
def escape (byte : UInt8) : List Char := '%' :: (Hex.fixed 2 byte.toNat).map Char.toUpper

/-- The escaped form of a text. -/
def encode (text : List Char) : List Char :=
  text.flatMap fun c => if isUnreserved c then [c] else (String.utf8EncodeChar c).flatMap escape

variable {written bytes later after : List UInt8}

/-! ## Bytes one after the other -/

theorem Writes.itself {front : List UInt8} (plain : percent ∉ front)
    (rest : Writes written bytes) : Writes (front ++ written) (front ++ bytes) := by
  induction front with
  | nil => exact rest
  | cons byte front ih =>
      rw [List.mem_cons, not_or] at plain
      exact .plain (fun isPercent => absurd isPercent.symm plain.1) (ih plain.2)

theorem escaped?_eq_none {high low : UInt8}
    (noDigit : Hex.value? (Char.ofNat high.toNat) = none ∨
      Hex.value? (Char.ofNat low.toNat) = none) : escaped? high low = none := by
  rw [escaped?]
  rcases noDigit with none | none
  · rw [none]
    rfl
  · rw [none]
    cases Hex.value? (Char.ofNat high.toNat) with
    | none => rfl
    | some value => rfl

/-- An escape does not go on into bytes that do not begin with a digit. -/
theorem Writes.append (first : Writes written bytes) (second : Writes later after)
    (stops : ∀ byte, later.head? = some byte → Hex.value? (Char.ofNat byte.toNat) = none) :
    Writes (written ++ later) (bytes ++ after) := by
  induction first with
  | nil => exact second
  | escape isByte _ ih => exact .escape isByte ih
  | @plain byte written bytes noEscape _ ih =>
      refine .plain (fun isPercent high low rest same => ?_) ih
      cases written with
      | nil =>
          have begins : later = high :: low :: rest := same
          exact escaped?_eq_none (.inl (stops high (by rw [begins]; rfl)))
      | cons first others =>
          obtain ⟨rfl, behind⟩ := List.cons.inj same
          cases others with
          | nil =>
              have begins : later = low :: rest := behind
              exact escaped?_eq_none (.inr (stops low (by rw [begins]; rfl)))
          | cons second others =>
              obtain ⟨rfl, _⟩ := List.cons.inj behind
              exact noEscape isPercent _ _ others rfl

/-! ## Escaped characters -/

theorem value?_digit_toUpper {n : Nat} (below : n < 16) :
    String.utf8EncodeChar (Hex.digit n).toUpper = [UInt8.ofNat (Hex.digit n).toUpper.toNat] ∧
      Hex.value? (Char.ofNat (UInt8.ofNat (Hex.digit n).toUpper.toNat).toNat) = some n := by
  have all : ∀ n < 16,
      String.utf8EncodeChar (Hex.digit n).toUpper = [UInt8.ofNat (Hex.digit n).toUpper.toNat] ∧
        Hex.value? (Char.ofNat (UInt8.ofNat (Hex.digit n).toUpper.toNat).toNat) = some n := by
    decide
  exact all n below

theorem writes_escape (byte : UInt8) (rest : Writes written bytes) :
    Writes ((escape byte).flatMap String.utf8EncodeChar ++ written) (byte :: bytes) := by
  obtain ⟨single, high⟩ := value?_digit_toUpper (Nat.mod_lt (byte.toNat / 16) (by decide))
  obtain ⟨single', low⟩ := value?_digit_toUpper (Nat.mod_lt byte.toNat (by decide))
  have whole : 16 * (byte.toNat / 16 % 16) + byte.toNat % 16 = byte.toNat := by
    have bound := byte.toNat_lt
    omega
  have letters : escape byte =
      ['%', (Hex.digit (byte.toNat / 16 % 16)).toUpper, (Hex.digit (byte.toNat % 16)).toUpper] :=
    rfl
  rw [letters, List.flatMap_cons, List.flatMap_cons, List.flatMap_cons, single, single']
  refine .escape ?_ rest
  rw [escaped?, high, low]
  change some (UInt8.ofNat (16 * (byte.toNat / 16 % 16) + byte.toNat % 16)) = some byte
  rw [whole, UInt8.ofNat_toNat]

theorem writes_escapes (front : List UInt8) (rest : Writes written bytes) :
    Writes ((front.flatMap escape).flatMap String.utf8EncodeChar ++ written)
      (front ++ bytes) := by
  induction front with
  | nil => exact rest
  | cons byte front ih =>
      rw [List.flatMap_cons, List.flatMap_append, List.append_assoc]
      exact writes_escape byte ih

theorem ne_percent_of_isUnreserved {c : Char} (unreserved : isUnreserved c = true) : c ≠ '%' := by
  rintro rfl
  revert unreserved
  decide

/-- Decoding gives back the text that was escaped. -/
theorem writes_encode (text : List Char) :
    Writes ((encode text).flatMap String.utf8EncodeChar)
      (text.flatMap String.utf8EncodeChar) := by
  induction text with
  | nil => exact .nil
  | cons c text ih =>
      rw [encode, List.flatMap_cons, List.flatMap_append, List.flatMap_cons]
      split
      next unreserved =>
        rw [List.flatMap_singleton]
        exact .itself (percent_not_mem_utf8EncodeChar (ne_percent_of_isUnreserved unreserved)) ih
      next => exact writes_escapes (String.utf8EncodeChar c) ih

/-- The characters that an escaped text is made of. -/
theorem mem_encode {text : List Char} {c : Char} (member : c ∈ encode text) :
    isUnreserved c = true ∨ c = '%' := by
  have digits : ∀ n < 16, isUnreserved (Hex.digit n).toUpper = true := by decide
  obtain ⟨origin, _, inside⟩ := List.mem_flatMap.1 member
  split at inside
  next unreserved =>
    rw [List.mem_singleton.1 inside]
    exact .inl unreserved
  next =>
    obtain ⟨byte, _, letter⟩ := List.mem_flatMap.1 inside
    rcases List.mem_cons.1 letter with isPercent | digit
    · exact .inr isPercent
    · obtain ⟨lower, listed, rfl⟩ := List.mem_map.1 digit
      have cases : lower = Hex.digit (byte.toNat / 16 % 16) ∨
          lower = Hex.digit (byte.toNat % 16) := by
        simpa [Hex.fixed] using listed
      rcases cases with rfl | rfl
      · exact .inl (digits _ (Nat.mod_lt _ (by decide)))
      · exact .inl (digits _ (Nat.mod_lt _ (by decide)))

end WebBundle.Text.Percent
