import MidiScore.Channel.Performance

/-!
# The score of a phrase

What a phrase means on a channel, said without the clock and the agenda: the notes and bends of each
element, on the ticks on which they are heard. Element `i` is the melody's sound at `i` and the
rhythm's beat at `i`; the shorter side starts again, the melody an octave higher each time.
-/

namespace MidiScore

/-- Whether the message is a note or a bend. -/
def Message.isNoteOrBend : Message → Bool
  | noteOn .. | noteOff .. | pitchBend .. => true
  | _ => false

/-- The pitches that are struck. -/
def Playable.tones : Playable → List Pitch
  | pitch p => [p]
  | chord c => c.tones

/-- The velocity raised by `delta`, clamped into the range of velocities. -/
def Dynamic.louder (d : Dynamic) (delta : Int) : Nat :=
  clampVelocity (d.velocity + delta)

namespace Channel

section Sounds

variable {c : Channel} {p : Pitch} {a : Articulation} {start duration : Nat}

end Sounds

/-- The ticks that a sound of the length of `beat` lasts. -/
def soundingTicks (c : Channel) (s : Sound) (beat : Beat) : Nat :=
  s.articulation.soundingTicks (c.timing.ticksInBeat beat)

end Channel

namespace Phrase

/-- Element `i`: the sound at place `i` of the melody, shifted up by as many octaves as the melody
has been played through, and the beat at place `i` of the rhythm. -/
def element? (p : Phrase) (i : Nat) : Option (Sound × Beat) := do
  let sound ← p.melody.sounds[i % p.melody.size]?
  let beat ← p.rhythm.beats[i % p.rhythm.size]?
  return (sound.shiftOctave (i / p.melody.size : Nat), beat)

/-- The ticks of the elements before element `i`. -/
def ticksBefore (p : Phrase) (c : Channel) (i : Nat) : Nat :=
  total ((List.range i).map fun j =>
    match p.element? j with
    | some (_, beat) => c.timing.ticksInBeat beat
    | none => 0)

theorem ticksBefore_succ (p : Phrase) (c : Channel) (i : Nat) :
    p.ticksBefore c (i + 1) = p.ticksBefore c i +
      match p.element? i with
      | some (_, beat) => c.timing.ticksInBeat beat
      | none => 0 := by
  unfold ticksBefore
  rw [List.range_succ, List.map_append, total_append, List.map_singleton]
  rfl

/-- The ticks of a phrase. -/
def ticks (p : Phrase) (c : Channel) : Nat :=
  p.ticksBefore c p.size

theorem get?_eq_element? (p : Phrase) (i : Nat) : p.get? i = p.element? i := by
  unfold get? element? Melody.get? Rhythm.get? cyclePlace cycleTurns
  have hplace : ((i : Int) % (p.melody.size : Int)).toNat = i % p.melody.size := by
    rw [← Int.natCast_emod, Int.toNat_natCast]
  rw [hplace]
  cases p.melody.sounds[i % p.melody.size]? <;> rfl

theorem elements_eq (p : Phrase) : p.elements = (List.range p.size).filterMap p.element? :=
  congrArg (List.filterMap · (List.range p.size)) (funext p.get?_eq_element?)

end Phrase

namespace Channel

variable (c : Channel)

end Channel

end MidiScore
