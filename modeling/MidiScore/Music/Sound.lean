import MidiScore.Music.Chord
import MidiScore.Music.Beat

/-!
# Sounds, melodies and phrases

A sound is a pitch or chord with an articulation, which shapes its length, its attack and its
release. A melody lists sounds and is indexed by all integers like a chord. A phrase sets a melody
to a rhythm; the shorter of the two starts again until the longer one ends.
-/

namespace MidiScore

/-- The velocity of a release that no articulation shapes. -/
def plainOffVelocity : Nat := 96

/-- The sound controller for the time a release takes. -/
def releaseTime : Nat := 72

/-- The sound controller for the time an attack takes. -/
def attackTime : Nat := 73

/-- How a sound is performed. -/
inductive Articulation where
  | plain
  | staccato
  | staccatissimo
  | marcato
  | accent
  | tenuto
  | gliscando
deriving DecidableEq, Repr

namespace Articulation

/-- The part of the written length that sounds. -/
def lengthScale : Articulation → Float
  | staccato => 1 / 4
  | staccatissimo | marcato => 1 / 3
  | tenuto => 1 + 1 / 8
  | plain | accent | gliscando => 1

/-- The ticks that sound of a written length. -/
def soundingTicks (a : Articulation) (written : Nat) : Nat :=
  nearestTick (Float.ofNat written * a.lengthScale)

/-- What is added to the dynamic for the attack. -/
def attackDelta : Articulation → Int
  | staccatissimo => 8
  | marcato => 12
  | accent => 16
  | plain | staccato | tenuto | gliscando => 0

/-- The velocity of the release. -/
def offVelocity : Articulation → Nat
  | staccato | staccatissimo | marcato => 127
  | accent => 113
  | tenuto => 1
  | plain | gliscando => plainOffVelocity

/-- The controllers that are turned while the sound lasts, with their values. -/
def knobs : Articulation → List (Nat × Nat)
  | staccato => [(releaseTime, 20)]
  | staccatissimo => [(releaseTime, 0)]
  | marcato => [(attackTime, 20), (releaseTime, 64)]
  | plain | accent | tenuto | gliscando => []

end Articulation

/-- What can sound: a pitch or a chord. -/
inductive Playable where
  | pitch (p : Pitch)
  | chord (c : Chord)
deriving DecidableEq, Repr

namespace Playable

/-- Moves by octaves. -/
def shiftOctave (p : Playable) (octaves : Int) : Playable :=
  match p with
  | pitch p => pitch (p.shiftOctave octaves)
  | chord c => chord (c.shiftOctave octaves)

/-- Moves by semitones. -/
def transpose (p : Playable) (semitones : Int) : Playable :=
  match p with
  | pitch p => pitch (p.transpose semitones)
  | chord c => chord (c.transpose semitones)

/-- Whether nothing sounds. -/
def isRest : Playable → Bool
  | pitch p => p.isRest
  | chord c => c.isRest

end Playable

/-- A pitch or chord with its articulation. -/
structure Sound where
  playable : Playable
  articulation : Articulation := .plain
deriving DecidableEq, Repr

/-- Moves a sound by octaves. -/
def Sound.shiftOctave (s : Sound) (octaves : Int) : Sound :=
  { s with playable := s.playable.shiftOctave octaves }

/-- Sounds one after the other. -/
structure Melody where
  sounds : List Sound
deriving DecidableEq, Repr

namespace Melody

/-- Adds a sound at the end. -/
def push (m : Melody) (s : Sound) : Melody :=
  ⟨m.sounds ++ [s]⟩

instance : Append Melody where
  append m n := ⟨m.sounds ++ n.sounds⟩

/-- The number of sounds. -/
def size (m : Melody) : Nat :=
  m.sounds.length

/-- The sound at logical index `i`, shifted by the octaves the index has gone round. An empty melody
has none. -/
def get? (m : Melody) (i : Int) : Option Sound :=
  m.sounds[cyclePlace i m.size]?.map (·.shiftOctave (cycleTurns i m.size))

/-- The sounds at the logical indices from `a` up to, but not including, `b`. -/
def range (m : Melody) (a b : Int) : Melody :=
  if m.sounds.isEmpty then m
  else ⟨(List.range (b - a).toNat).filterMap fun (j : Nat) => m.get? (a + j)⟩

/-- Moves every sound by octaves. -/
def shiftOctave (m : Melody) (octaves : Int) : Melody :=
  ⟨m.sounds.map (·.shiftOctave octaves)⟩

end Melody

/-- A melody set to a rhythm. -/
structure Phrase where
  melody : Melody
  rhythm : Rhythm
deriving DecidableEq

namespace Phrase

/-- The number of elements: that of the longer side, or none if a side is empty. -/
def size (p : Phrase) : Nat :=
  if p.melody.size = 0 ∨ p.rhythm.size = 0 then 0 else max p.melody.size p.rhythm.size

/-- The element at index `i`. -/
def get? (p : Phrase) (i : Nat) : Option (Sound × Beat) := do
  return (← p.melody.get? i, ← p.rhythm.get? i)

/-- The sounds of the phrase with their beats. -/
def elements (p : Phrase) : List (Sound × Beat) :=
  (List.range p.size).filterMap p.get?

/-- The length of the elements together. -/
def duration (p : Phrase) : Beat :=
  (p.elements.map (·.2)).foldl (· + ·) .zero

end Phrase

end MidiScore
