import MidiScore.Music.Pitch

/-!
# Pitches that are moved by octaves

A key that is moved by octaves keeps its pitch class, folded or not (`class?_shiftOctave`). One that
stays on the keyboard is not folded, and then moves add up (`shiftOctave_shiftOctave`).
-/

namespace MidiScore.Pitch

/-- The pitch class of a key: its number up to octaves. A rest has none. -/
def class? (p : Pitch) : Option Nat :=
  p.number?.map (· % 12)

/-- Moved by octaves, the pitch stays on the keyboard before it is folded. A rest always does. -/
def Stays (p : Pitch) (octaves : Int) : Prop :=
  ∀ n ∈ p.number?, 0 ≤ (n : Int) + octaves * 12 ∧ (n : Int) + octaves * 12 ≤ 127

instance (p : Pitch) (octaves : Int) : Decidable (p.Stays octaves) :=
  inferInstanceAs (Decidable (∀ n ∈ p.number?, _))

theorem fold_of_mem {n : Int} (h : 0 ≤ n ∧ n ≤ 127) : fold n = n := by
  unfold fold
  omega

theorem fold_emod (n : Int) : fold n % 12 = n % 12 := by
  unfold fold
  omega

theorem number?_shiftOctave_key (n : Fin 128) (octaves : Int) :
    ((key n).shiftOctave octaves).number? = some (fold (n.val + octaves * 12)).toNat := rfl

/-- Pitches with the same number, or none, are the same. -/
theorem number?_injective {p q : Pitch} (h : p.number? = q.number?) : p = q := by
  cases p <;> cases q <;> simp_all [number?, Fin.ext_iff]

theorem class?_shiftOctave (p : Pitch) (octaves : Int) :
    (p.shiftOctave octaves).class? = p.class? := by
  cases p with
  | rest => rfl
  | key n =>
    have hfold := fold_emod (n.val + octaves * 12)
    have hmem := fold_mem (n.val + octaves * 12)
    unfold class?
    rw [number?_shiftOctave_key]
    simp only [number?, Option.map_some, Option.some.injEq]
    omega

theorem shiftOctave_shiftOctave {p : Pitch} {octaves : Int} (h : p.Stays octaves) (more : Int) :
    (p.shiftOctave octaves).shiftOctave more = p.shiftOctave (octaves + more) := by
  cases p with
  | rest => rfl
  | key n =>
    have hstays := h n.val rfl
    have hfold : fold (n.val + octaves * 12) = n.val + octaves * 12 := fold_of_mem hstays
    refine number?_injective ?_
    show some (fold (((fold (n.val + octaves * 12)).toNat : Nat) + more * 12)).toNat =
      some (fold (n.val + (octaves + more) * 12)).toNat
    rw [hfold, Int.toNat_of_nonneg hstays.1, Int.add_mul, Int.add_assoc]

@[simp] theorem shiftOctave_zero (p : Pitch) : p.shiftOctave 0 = p := by
  cases p with
  | rest => rfl
  | key n =>
    refine number?_injective ?_
    rw [number?_shiftOctave_key, fold_of_mem (by omega), Int.zero_mul, Int.add_zero]
    rfl

end MidiScore.Pitch
