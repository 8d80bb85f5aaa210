import MidiScore.Number.Total

/-!
# Classes of characters

A class of characters is given by ranges of code points, as the tables of a character property are.
-/

namespace MidiScore

/-- The first and the last code point of each range, in ascending order. -/
structure CharClass where
  ranges : List (Nat × Nat)

namespace CharClass

/-- Whether a character is in the class. -/
def contains (k : CharClass) (c : Char) : Bool :=
  k.ranges.any fun (first, last) => first ≤ c.toNat && c.toNat ≤ last

/-- The number of code points in the class. -/
def size (k : CharClass) : Nat :=
  total (k.ranges.map fun (first, last) => last + 1 - first)

/-- Whether ranges are ascending and apart from each other, and none is empty. -/
def areApart : List (Nat × Nat) → Bool
  | [] => true
  | [(first, last)] => first ≤ last
  | (first, last) :: next :: rest =>
    first ≤ last && last + 1 < next.1 && areApart (next :: rest)

end CharClass

end MidiScore
