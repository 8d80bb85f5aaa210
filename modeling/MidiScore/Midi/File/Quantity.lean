/-!
# Variable-length quantities

A quantity below `2 ^ 28` is written in groups of seven bits, the highest first; all bytes but the
last have their top bit set.
-/

namespace MidiScore.Quantity7

/-- The bytes that precede the last byte of `n`, in at most `size` groups. -/
def leadingBytes : Nat → Nat → List UInt8
  | 0, _ => []
  | size + 1, n => if n = 0 then [] else leadingBytes size (n / 128) ++ [.ofNat (128 + n % 128)]

/-- The fewest bytes that spell a quantity. -/
def encode (n : Nat) : List UInt8 :=
  leadingBytes 3 (n / 128) ++ [.ofNat (n % 128)]

/-- Reads at most `size` more bytes of a quantity that began as `n`, and returns the rest. At the
end of the data the quantity ends too. -/
def decodeFrom : Nat → Nat → List UInt8 → Nat × List UInt8
  | 0, n, bs => (n, bs)
  | _ + 1, n, [] => (n, [])
  | size + 1, n, b :: bs =>
    let n := n * 128 + b.toNat % 128
    if b.toNat < 128 then (n, bs) else decodeFrom size n bs

/-- Reads a quantity of at most four bytes and returns the rest. -/
def decode (bs : List UInt8) : Nat × List UInt8 :=
  decodeFrom 4 0 bs

theorem length_decodeFrom_le (size n : Nat) (bs : List UInt8) :
    (decodeFrom size n bs).2.length ≤ bs.length := by
  induction size generalizing n bs with
  | zero => exact Nat.le_refl _
  | succ size ih =>
    cases bs with
    | nil => exact Nat.le_refl _
    | cons b bs =>
      simp only [decodeFrom]
      split
      · simp
      · have := ih (n * 128 + b.toNat % 128) bs
        simp only [List.length_cons]
        omega

theorem length_decode_le (bs : List UInt8) : (decode bs).2.length ≤ bs.length :=
  length_decodeFrom_le 4 0 bs

example : decode (encode 0x0FFFFFFF) = (0x0FFFFFFF, []) := by decide

end MidiScore.Quantity7
