/-!
# Totals

The sum of a list of natural numbers.
-/

namespace MidiScore

/-- The sum of natural numbers. -/
def total : List Nat → Nat
  | [] => 0
  | n :: rest => n + total rest

@[simp] theorem total_nil : total [] = 0 := rfl

@[simp] theorem total_cons (n : Nat) (l : List Nat) : total (n :: l) = n + total l := rfl

@[simp] theorem total_append (l m : List Nat) : total (l ++ m) = total l + total m := by
  induction l with
  | nil => simp
  | cons n l ih => simp [ih, Nat.add_assoc]

/-- A list of positive numbers is no longer than their sum. -/
theorem length_le_total {l : List Nat} (h : ∀ n ∈ l, 0 < n) : l.length ≤ total l := by
  induction l with
  | nil => simp
  | cons n l ih =>
    have := h n (by simp)
    have := ih fun m hm => h m (by simp [hm])
    simp only [List.length_cons, total_cons]
    omega

end MidiScore
