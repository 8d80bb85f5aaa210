import MidiScore.Music.Pitch
import MidiScore.Number.Bounded

/-!
# Chords

A chord is an ordered stack of pitches. Its tones are indexed by all integers: past either end the
voicing starts again, shifted by an octave each time round.
-/

namespace MidiScore

/-- An ordered stack of pitches. -/
structure Chord where
  tones : List Pitch
deriving DecidableEq, Repr

/-- The place of logical index `i` in a cycle of `n` elements. -/
def cyclePlace (i : Int) (n : Nat) : Nat :=
  (i % n).toNat

/-- How many times logical index `i` has gone round a cycle of `n` elements. -/
def cycleTurns (i : Int) (n : Nat) : Int :=
  i / n

namespace Chord

/-- The chord whose tones lie the given numbers of semitones above `root`. -/
def ofIntervals (root : Pitch) (semitones : List Int) : Chord :=
  ⟨semitones.map root.transpose⟩

/-- Adds a tone on top. -/
def push (c : Chord) (p : Pitch) : Chord :=
  ⟨c.tones ++ [p]⟩

/-- The number of tones. -/
def size (c : Chord) : Nat :=
  c.tones.length

/-- The tone at logical index `i`, shifted by the octaves the index has gone round. An empty chord
has none. -/
def get? (c : Chord) (i : Int) : Option Pitch :=
  c.tones[cyclePlace i c.size]?.map (·.shiftOctave (cycleTurns i c.size))

/-- Moves every tone by octaves. -/
def shiftOctave (c : Chord) (octaves : Int) : Chord :=
  ⟨c.tones.map (·.shiftOctave octaves)⟩

/-- Moves every tone by semitones. -/
def transpose (c : Chord) (semitones : Int) : Chord :=
  ⟨c.tones.map (·.transpose semitones)⟩

/-- As many tones as the chord has, starting at logical index `n`, unless the indices outgrow a
signed word of 32 bits. -/
def invert? (c : Chord) (n : Int) : Option Chord :=
  (Bounded.int? 32 (n + c.size)).map fun _ =>
    ⟨(List.range c.size).filterMap fun (j : Nat) => c.get? (n + j)⟩

/-- Whether no tone sounds. -/
def isRest (c : Chord) : Bool :=
  c.tones.all (·.isRest)

end Chord

end MidiScore
