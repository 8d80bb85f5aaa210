import MidiScore.Music.ValueError

/-!
# Pitches

A pitch is one of the 128 keys or a rest. Transposing a key keeps its pitch class: a key that would
leave the range is folded back by whole octaves, to the nearest key of its class. A rest stays a
rest.
-/

namespace MidiScore

/-- A key from 0 to 127, or a rest. -/
inductive Pitch where
  | key (number : Fin 128)
  | rest
deriving DecidableEq, Repr

namespace Pitch

/-- The key with the given number. -/
def ofNumber (n : Nat) : Except ValueError Pitch :=
  if h : n < 128 then .ok (key ⟨n, h⟩) else .error (.pitch n)

/-- The number of the key, if the pitch sounds. -/
def number? : Pitch → Option Nat
  | key n => some n
  | rest => none

/-- Whether the pitch is a rest. -/
def isRest : Pitch → Bool
  | key _ => false
  | rest => true

/-- The key nearest to `n` among those that differ from it by whole octaves. -/
def fold (n : Int) : Int :=
  if 127 < n then 127 - (127 - n) % 12 else if n < 0 then n % 12 else n

theorem fold_mem (n : Int) : 0 ≤ fold n ∧ fold n ≤ 127 := by
  unfold fold
  omega

/-- Moves a pitch by semitones. -/
def transpose (p : Pitch) (semitones : Int) : Pitch :=
  match p with
  | rest => rest
  | key n => key ⟨(fold (n + semitones)).toNat, by have := fold_mem (n + semitones); omega⟩

/-- Moves a pitch by octaves. -/
def shiftOctave (p : Pitch) (octaves : Int) : Pitch :=
  p.transpose (octaves * 12)

/-- One semitone up. -/
def sharp (p : Pitch) : Pitch :=
  p.transpose 1

/-- One semitone down. -/
def flat (p : Pitch) : Pitch :=
  p.transpose (-1)

/-- The naturals of the octave of middle C. -/
def c : Pitch := key 60
def d : Pitch := key 62
def e : Pitch := key 64
def f : Pitch := key 65
def g : Pitch := key 67
def a : Pitch := key 69
def b : Pitch := key 71

/-- The natural of a letter from A to G, in either case, in the octave of middle C. -/
def ofLetter? (letter : Char) : Option Pitch :=
  match letter.toUpper with
  | 'C' => some c
  | 'D' => some d
  | 'E' => some e
  | 'F' => some f
  | 'G' => some g
  | 'A' => some a
  | 'B' => some b
  | _ => none

/-- The names of the twelve pitch classes. -/
def classNames : List String :=
  ["C", "C#", "D", "D#", "E", "F", "F#", "G", "G#", "A", "A#", "B"]

/-- The name of a pitch: its class and octave, or a star for a rest. -/
def name : Pitch → String
  | key n => classNames.getD (n % 12) "" ++ toString ((n.val / 12 : Int) - 1)
  | rest => "*"

/-- Keys in ascending order, with the rest above them all. -/
protected def compare : Pitch → Pitch → Ordering
  | key m, key n => Ord.compare m.val n.val
  | key _, rest => .lt
  | rest, key _ => .gt
  | rest, rest => .eq

end Pitch

/-- The intervals that chords are spelt with. -/
inductive Interval where
  | minorSecond
  | majorSecond
  | minorThird
  | majorThird
  | perfectFourth
  | diminishedFifth
  | perfectFifth
  | augmentedFifth
  | majorSixth
  | diminishedSeventh
  | minorSeventh
  | majorSeventh
  | octave
  | minorNinth
  | majorNinth
  | perfectEleventh
  | majorThirteenth
deriving DecidableEq, Repr

/-- The width of an interval in semitones. A diminished seventh sounds like a major sixth. -/
def Interval.semitones : Interval → Int
  | minorSecond => 1
  | majorSecond => 2
  | minorThird => 3
  | majorThird => 4
  | perfectFourth => 5
  | diminishedFifth => 6
  | perfectFifth => 7
  | augmentedFifth => 8
  | majorSixth => 9
  | diminishedSeventh => 9
  | minorSeventh => 10
  | majorSeventh => 11
  | octave => 12
  | minorNinth => 13
  | majorNinth => 14
  | perfectEleventh => 17
  | majorThirteenth => 21

/-- The pitch an interval above `p`. -/
def Pitch.above (p : Pitch) (i : Interval) : Pitch :=
  p.transpose i.semitones

example : (Pitch.key 127).shiftOctave 1 = .key 127 := by decide

example : (Pitch.key 61).name = "C#4" := by decide

end MidiScore
