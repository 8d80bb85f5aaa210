import MidiScore.Midi.File.Quantity
import Mathlib.Algebra.Group.Nat.Defs
import Mathlib.Tactic.Common

/-!
# Quantities are read back

A quantity of at most 28 bits is read back from the bytes that spell it, whatever follows them
(`decode_encode`). The leading bytes leave the reader with as many bytes as the writer had left.
-/

namespace MidiScore.Quantity7

theorem length_leadingBytes_le (size n : Nat) : (leadingBytes size n).length ≤ size := by
  induction size generalizing n with
  | zero => exact Nat.le_refl _
  | succ size ih =>
    unfold leadingBytes
    split
    · exact Nat.zero_le _
    · rw [List.length_append]
      exact Nat.add_le_add_right (ih _) 1

theorem decodeFrom_cons (size n : Nat) (b : UInt8) (bs : List UInt8) :
    decodeFrom (size + 1) n (b :: bs) =
      if b.toNat < 128 then (n * 128 + b.toNat % 128, bs)
      else decodeFrom size (n * 128 + b.toNat % 128) bs :=
  rfl

theorem decodeFrom_leadingBytes {size n : Nat} (hn : n < 128 ^ size) (more : Nat)
    (bs : List UInt8) :
    decodeFrom (size + more) 0 (leadingBytes size n ++ bs) =
      decodeFrom (size + more - (leadingBytes size n).length) n bs := by
  induction size generalizing n more bs with
  | zero =>
    obtain rfl : n = 0 := by simpa using hn
    rfl
  | succ size ih =>
    unfold leadingBytes
    by_cases h0 : n = 0
    · rw [if_pos h0, h0]
      rfl
    · have hlen := length_leadingBytes_le size (n / 128)
      have hdiv : n / 128 < 128 ^ size := by
        rw [Nat.pow_succ] at hn
        omega
      have hbyte : (UInt8.ofNat (128 + n % 128)).toNat = 128 + n % 128 := by
        rw [UInt8.toNat_ofNat']
        omega
      have hvalue : n / 128 * 128 + (128 + n % 128) % 128 = n := by omega
      obtain ⟨left, hleft⟩ : ∃ left, size + (more + 1) - (leadingBytes size (n / 128)).length
          = left + 1 := ⟨size + more - (leadingBytes size (n / 128)).length, by omega⟩
      rw [if_neg h0, List.append_assoc, List.length_append, List.length_singleton,
        Nat.add_right_comm size 1 more, Nat.add_assoc, ih hdiv, hleft, List.singleton_append,
        decodeFrom_cons, hbyte, hvalue, if_neg (by omega)]
      congr 1
      omega

/-- A quantity of at most 28 bits is read back, whatever follows it. -/
theorem decode_encode {n : Nat} (hn : n ≤ 0x0FFFFFFF) (rest : List UInt8) :
    decode (encode n ++ rest) = (n, rest) := by
  have hlen := length_leadingBytes_le 3 (n / 128)
  have hbyte : (UInt8.ofNat (n % 128)).toNat = n % 128 := by
    rw [UInt8.toNat_ofNat']
    omega
  have hvalue : n / 128 * 128 + n % 128 % 128 = n := by omega
  obtain ⟨left, hleft⟩ : ∃ left, 3 + 1 - (leadingBytes 3 (n / 128)).length = left + 1 :=
    ⟨3 - (leadingBytes 3 (n / 128)).length, by omega⟩
  unfold decode encode
  rw [List.append_assoc, show 4 = 3 + 1 from rfl, decodeFrom_leadingBytes (by omega), hleft,
    List.singleton_append, decodeFrom_cons, hbyte, hvalue, if_pos (by omega)]

/-- A number below 128 is a quantity of one byte. -/
theorem decode_byte {b : UInt8} (hb : b.toNat < 128) (rest : List UInt8) :
    decode (b :: rest) = (b.toNat, rest) := by
  unfold decode
  rw [show 4 = 3 + 1 from rfl, decodeFrom_cons, if_pos hb, Nat.zero_mul, Nat.zero_add,
    Nat.mod_eq_of_lt hb]

theorem encode_ne_nil (n : Nat) : encode n ≠ [] := by
  simp [encode]

end MidiScore.Quantity7
