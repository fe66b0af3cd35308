import Mathlib.Algebra.Group.Nat.Defs
import Mathlib.Data.Nat.Basic
import WebBundle.Text.Hex

/-!
# Reading hexadecimal text back

Every digit that is written has a value, the digits of a number are read back as this number, and
the digits of some bytes as these bytes.
-/

namespace WebBundle.Text.Hex

theorem value?_digit {n : Nat} (below : n < 16) : value? (digit n) = some n := by
  have all : ∀ n < 16, value? (digit n) = some n := by decide
  exact all n below

theorem isSome_value?_of_mem_fixed {width n : Nat} {c : Char} (member : c ∈ fixed width n) :
    (value? c).isSome := by
  induction width generalizing n with
  | zero => cases member
  | succ width ih =>
      rw [fixed] at member
      cases List.mem_append.1 member with
      | inl higher => exact ih higher
      | inr last =>
          rw [List.mem_singleton.1 last, value?_digit (Nat.mod_lt n (by decide))]
          rfl

theorem isSome_value?_of_mem_encode {bytes : List UInt8} {c : Char} (member : c ∈ encode bytes) :
    (value? c).isSome := by
  obtain ⟨byte, _, written⟩ := List.mem_flatMap.1 member
  exact isSome_value?_of_mem_fixed written

/-- The digits of a number add up to its last digits. -/
theorem foldl_fixed (width n : Nat) :
    (fixed width n).foldl (fun total c => do return 16 * (← total) + (← value? c)) (some 0) =
      some (n % 16 ^ width) := by
  induction width generalizing n with
  | zero => simp [fixed, Nat.mod_one]
  | succ width ih =>
      have digit := value?_digit (Nat.mod_lt n (by decide : 0 < 16))
      have whole : 16 * (n / 16 % 16 ^ width) + n % 16 = n % 16 ^ (width + 1) := by
        rw [Nat.pow_succ', Nat.mod_mul, Nat.add_comm]
      rw [fixed, List.foldl_append, ih, List.foldl_cons, List.foldl_nil, digit, ← whole]
      rfl

theorem number?_fixed {width n : Nat} (some : 0 < width) (below : n < 16 ^ width) :
    number? (fixed width n) = Option.some n := by
  have digits : (fixed width n).isEmpty = false := by
    rw [List.isEmpty_eq_false_iff, ← List.length_pos_iff, length_fixed]
    exact some
  rw [number?, digits, if_neg Bool.false_ne_true, foldl_fixed, Nat.mod_eq_of_lt below]

theorem encode_cons (byte : UInt8) (bytes : List UInt8) :
    encode (byte :: bytes) =
      digit (byte.toNat / 16 % 16) :: digit (byte.toNat % 16) :: encode bytes := rfl

theorem decode?_encode (bytes : List UInt8) : decode? (encode bytes) = some bytes := by
  induction bytes with
  | nil => rfl
  | cons byte bytes ih =>
      have high : byte.toNat / 16 % 16 < 16 := Nat.mod_lt _ (by decide)
      have low : byte.toNat % 16 < 16 := Nat.mod_lt _ (by decide)
      have whole : 16 * (byte.toNat / 16 % 16) + byte.toNat % 16 = byte.toNat := by
        have bound := byte.toNat_lt
        omega
      rw [encode_cons, decode?, value?_digit high, value?_digit low, ih]
      change some (UInt8.ofNat (16 * (byte.toNat / 16 % 16) + byte.toNat % 16) :: bytes) = _
      rw [whole, UInt8.ofNat_toNat]

theorem encode_injective : Function.Injective encode := by
  intro bytes other same
  have back := congrArg decode? same
  rw [decode?_encode, decode?_encode] at back
  exact Option.some.inj back

end WebBundle.Text.Hex
