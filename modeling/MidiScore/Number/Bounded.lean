/-!
# Numbers that must fit a word

Clocks and due ticks are words of 64 bits, velocities and semitone sums signed words of 32 bits.
A sum that does not fit is refused rather than wrapped; only a duration handed to the agenda is
read as a signed word.
-/

namespace MidiScore.Bounded

/-- `n` if it fits an unsigned word of `w` bits. -/
def nat? (w n : Nat) : Option Nat :=
  if n < 1 <<< w then some n else none

/-- `n` if it fits a signed word of `w` bits. -/
def int? (w : Nat) (n : Int) : Option Int :=
  if -(1 <<< (w - 1) : Nat) ≤ n ∧ n < (1 <<< (w - 1) : Nat) then some n else none

/-- The word `n` of `w` bits read with its top bit as a sign. -/
def signed (w n : Nat) : Int :=
  Int.bmod n (1 <<< w)

theorem nat?_eq_some_iff {w n m : Nat} : nat? w n = some m ↔ n < 1 <<< w ∧ n = m := by
  simp only [nat?]
  split
  · simp_all
  · simp only [reduceCtorEq, false_iff]
    omega

theorem nat?_eq_none_iff {w n : Nat} : nat? w n = none ↔ 1 <<< w ≤ n := by
  simp only [nat?]
  split <;> simp_all

theorem int?_eq_some_iff {w : Nat} {n m : Int} :
    int? w n = some m ↔ (-(1 <<< (w - 1) : Nat) ≤ n ∧ n < (1 <<< (w - 1) : Nat)) ∧ n = m := by
  unfold int?
  split
  · next h => rw [Option.some.injEq, and_iff_right h]
  · next h => exact ⟨nofun, fun hm => absurd hm.1 h⟩

theorem nat?_of_lt {w n : Nat} (h : n < 1 <<< w) : nat? w n = some n := by
  simp [nat?, h]

end MidiScore.Bounded
