import Mathlib.Data.List.Basic
import MidiScore.Music.Sound
import MidiScore.Proofs.Music.Cycle
import MidiScore.Proofs.Music.Pitch

/-!
# Sounds and phrases that are moved by octaves

What is moved by octaves keeps its rests and its articulations. A melody that is no shorter than the
rhythm is played once, so moving it moves each element of the phrase
(`Phrase.elements_shiftOctave`). Where a melody starts again it is moved twice, and its keys may
then be folded differently.
-/

namespace MidiScore

theorem Pitch.isRest_shiftOctave (p : Pitch) (octaves : Int) :
    (p.shiftOctave octaves).isRest = p.isRest := by
  cases p <;> rfl

namespace Chord

theorem size_shiftOctave (c : Chord) (octaves : Int) : (c.shiftOctave octaves).size = c.size :=
  List.length_map _

theorem isRest_shiftOctave (c : Chord) (octaves : Int) :
    (c.shiftOctave octaves).isRest = c.isRest := by
  unfold isRest shiftOctave
  rw [List.all_map]
  exact List.all_congr rfl fun p => p.isRest_shiftOctave octaves

@[simp] theorem shiftOctave_zero (c : Chord) : c.shiftOctave 0 = c := by
  simp [shiftOctave]

end Chord

namespace Playable

theorem isRest_shiftOctave (p : Playable) (octaves : Int) :
    (p.shiftOctave octaves).isRest = p.isRest := by
  cases p with
  | pitch p => exact p.isRest_shiftOctave octaves
  | chord c => exact c.isRest_shiftOctave octaves

@[simp] theorem shiftOctave_zero (p : Playable) : p.shiftOctave 0 = p := by
  cases p <;> simp [shiftOctave]

end Playable

@[simp] theorem Sound.shiftOctave_zero (s : Sound) : s.shiftOctave 0 = s := by
  simp [shiftOctave]

/-- An element of a phrase with its sound moved by octaves. -/
def shiftElement (octaves : Int) (element : Sound × Beat) : Sound × Beat :=
  (element.1.shiftOctave octaves, element.2)

@[simp] theorem shiftElement_zero : shiftElement 0 = id := by
  funext element
  simp [shiftElement]

namespace Melody

theorem size_shiftOctave (m : Melody) (octaves : Int) : (m.shiftOctave octaves).size = m.size :=
  List.length_map _

/-- A melody that has not started again gives its sounds as they are written. -/
theorem get?_of_lt {m : Melody} {i : Nat} (hi : i < m.size) : m.get? i = m.sounds[i]? := by
  have hplace := cyclePlace_mul_add 0 hi
  have hturns := cycleTurns_mul_add 0 hi
  rw [Int.zero_mul, Int.zero_add] at hplace hturns
  unfold get?
  rw [hplace, hturns]
  simp

theorem get?_shiftOctave {m : Melody} {i : Nat} (hi : i < m.size) (octaves : Int) :
    (m.shiftOctave octaves).get? i = (m.get? i).map (·.shiftOctave octaves) := by
  rw [get?_of_lt hi, get?_of_lt (by rwa [m.size_shiftOctave])]
  exact List.getElem?_map

end Melody

namespace Phrase

/-- The phrase with its melody moved by octaves. -/
def shiftOctave (p : Phrase) (octaves : Int) : Phrase :=
  { p with melody := p.melody.shiftOctave octaves }

variable {p : Phrase}

theorem size_shiftOctave (p : Phrase) (octaves : Int) : (p.shiftOctave octaves).size = p.size := by
  unfold size shiftOctave
  rw [Melody.size_shiftOctave]

/-- A melody that is no shorter than the rhythm is played once. -/
theorem lt_of_lt_size (hlength : p.rhythm.size ≤ p.melody.size) {i : Nat} (hi : i < p.size) :
    i < p.melody.size := by
  refine Nat.lt_of_lt_of_le hi ?_
  unfold size
  split
  · exact Nat.zero_le _
  · exact Nat.max_le.2 ⟨Nat.le_refl _, hlength⟩

theorem elements_shiftOctave (hlength : p.rhythm.size ≤ p.melody.size) (octaves : Int) :
    (p.shiftOctave octaves).elements = p.elements.map (shiftElement octaves) := by
  unfold elements
  rw [p.size_shiftOctave, List.map_filterMap]
  refine List.filterMap_congr fun i hi => ?_
  have hplace := lt_of_lt_size hlength (List.mem_range.1 hi)
  unfold get? shiftOctave
  rw [Melody.get?_shiftOctave hplace]
  cases p.melody.get? i <;> cases p.rhythm.get? i <;> rfl

end Phrase

end MidiScore
