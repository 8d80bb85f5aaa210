import MidiScore.Music.Chord

/-!
# Indices that go round

The tones of a chord and the sounds of a melody are indexed by all integers: an index has a place
and a number of turns. Places and turns of indices add up (`cyclePlace_add`, `cycleTurns_add`).
-/

namespace MidiScore

variable {n : Nat}

theorem cyclePlace_lt (i : Int) (hn : 0 < n) : cyclePlace i n < n := by
  have := Int.emod_lt_of_pos i (Int.natCast_pos.2 hn)
  unfold cyclePlace
  omega

theorem cyclePlace_cast (i : Int) (hn : 0 < n) : (cyclePlace i n : Int) = i % n :=
  Int.toNat_of_nonneg (Int.emod_nonneg i (by omega))

/-- The index is as many turns as it has gone round, and its place. -/
theorem add_cyclePlace_add_turns (a i : Int) (hn : 0 < n) :
    a + cyclePlace i n + n * cycleTurns i n = a + i := by
  rw [cyclePlace_cast i hn, Int.add_assoc]
  exact congrArg (a + ·) (Int.emod_add_mul_ediv i n)

/-- Going on from the place of an index leads to the same place as going on from the index. -/
theorem cyclePlace_add (a i : Int) (hn : 0 < n) :
    cyclePlace (a + cyclePlace i n) n = cyclePlace (a + i) n := by
  rw [← add_cyclePlace_add_turns a i hn]
  unfold cyclePlace
  rw [Int.add_mul_emod_self_left]

/-- The turns of the index come on top of those that going on from its place takes. -/
theorem cycleTurns_add (a i : Int) (hn : 0 < n) :
    cycleTurns (a + cyclePlace i n) n + cycleTurns i n = cycleTurns (a + i) n := by
  rw [← add_cyclePlace_add_turns a i hn]
  exact (Int.add_mul_ediv_left _ _ (by omega)).symm

/-- Indices that have gone round whole turns. -/
theorem cyclePlace_mul_add {j : Nat} (k : Int) (hj : j < n) : cyclePlace (k * n + j) n = j := by
  unfold cyclePlace
  rw [Int.add_comm, Int.add_mul_emod_self_right, Int.emod_eq_of_lt] <;> omega

theorem cycleTurns_mul_add {j : Nat} (k : Int) (hj : j < n) : cycleTurns (k * n + j) n = k := by
  unfold cycleTurns
  rw [Int.add_comm, Int.add_mul_ediv_right _ _ (by omega), Int.ediv_eq_zero_of_lt] <;> omega

end MidiScore
