import MidiScore.Music.ValueError

/-!
# Beats and rhythms

A beat is a duration in quarter notes, with a mark that says whether it is slurred. Durations are
compared and added; the mark is carried along. A rhythm is a list of beats, read in a cycle.
-/

namespace MidiScore

/-- A duration in quarter notes, slurred or not. -/
structure Beat where
  quarters : Float
  slurred : Bool := false
deriving DecidableEq

namespace Beat

def whole : Beat := ⟨4, false⟩
def half : Beat := ⟨2, false⟩
def quarter : Beat := ⟨1, false⟩
def eighth : Beat := ⟨0.5, false⟩
def sixteenth : Beat := ⟨0.25, false⟩
def thirtySecond : Beat := ⟨0.125, false⟩

/-- A beat of no length. -/
def zero : Beat := ⟨0, false⟩

/-- The beats that have a name. -/
def named : List (String × Beat) :=
  [("whole", whole), ("half", half), ("quarter", quarter), ("eighth", eighth),
   ("sixteenth", sixteenth), ("thirty_second", thirtySecond)]

/-- The beat of the given length, which must not be negative. -/
def ofQuarters (quarters : Float) : Except ValueError Beat :=
  if 0 ≤ quarters then .ok ⟨quarters, false⟩ else .error (.negativeBeat quarters)

/-- `total` with `dots` halvings of `added` added on. Once halving changes nothing, further dots
change nothing either. -/
def dotted (added total : Float) : Nat → Float
  | 0 => total
  | dots + 1 =>
    let next := added / 2
    if next == added then total + next else dotted next (total + next) dots

/-- The beat lengthened by dots, each by half of what the last one added. -/
def dot (b : Beat) (dots : Nat) : Beat :=
  { b with quarters := dotted b.quarters b.quarters dots }

/-- The beat scaled so that `numerator` of them take the time of `denominator`. -/
def tuplet (b : Beat) (numerator denominator : Nat) : Except ValueError Beat :=
  if 1 < numerator ∧ 0 < denominator then
    .ok { b with quarters := b.quarters * Float.ofNat denominator / Float.ofNat numerator }
  else .error (.tuplet numerator denominator)

/-- The beat with its slur mark set. -/
def withSlur (b : Beat) (slurred : Bool) : Beat :=
  { b with slurred }

/-- The beat with its slur mark turned over. -/
def toggleSlur (b : Beat) : Beat :=
  b.withSlur !b.slurred

/-- The two durations one after the other, marked as the first. -/
instance : Add Beat where
  add a b := { a with quarters := a.quarters + b.quarters }

/-- Whether two beats last equally long. -/
def sameLength (a b : Beat) : Bool :=
  a.quarters == b.quarters

/-- Which of two beats is shorter. -/
def compareLength (a b : Beat) : Option Ordering :=
  if a.quarters < b.quarters then some .lt
  else if b.quarters < a.quarters then some .gt
  else if a.quarters == b.quarters then some .eq
  else none

end Beat

/-- Beats played one after the other, and then from the first again. -/
structure Rhythm where
  beats : List Beat
deriving DecidableEq

namespace Rhythm

/-- Adds a beat at the end. -/
def push (r : Rhythm) (b : Beat) : Rhythm :=
  ⟨r.beats ++ [b]⟩

instance : Append Rhythm where
  append r s := ⟨r.beats ++ s.beats⟩

/-- The number of beats. -/
def size (r : Rhythm) : Nat :=
  r.beats.length

/-- The beat at index `i` of the cycle. An empty rhythm has none. -/
def get? (r : Rhythm) (i : Nat) : Option Beat :=
  r.beats[i % r.size]?

/-- Whether the beat at index `i` of the cycle is slurred. -/
def slurredAt (r : Rhythm) (i : Nat) : Bool :=
  (r.get? i).any (·.slurred)

/-- The length of the beats together. -/
def duration (r : Rhythm) : Beat :=
  r.beats.foldl (· + ·) .zero

/-- The rhythm with every slur mark turned over. -/
def toggleSlur (r : Rhythm) : Rhythm :=
  ⟨r.beats.map (·.toggleSlur)⟩

/-- The rhythm with every slur mark set. -/
def withSlur (r : Rhythm) (slurred : Bool) : Rhythm :=
  ⟨r.beats.map (·.withSlur slurred)⟩

/-- The rhythm with every beat scaled by the same tuplet. -/
def tuplet (r : Rhythm) (numerator denominator : Nat) : Except ValueError Rhythm :=
  Rhythm.mk <$> r.beats.mapM (·.tuplet numerator denominator)

end Rhythm

end MidiScore
