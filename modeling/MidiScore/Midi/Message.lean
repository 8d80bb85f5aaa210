import MidiScore.Music.ValueError

/-!
# Messages

A message is a channel-voice message or a meta event. Its numbers are not restricted by the type:
`Message.validate` says which messages an instrument accepts, and names the first number that is out
of range.
-/

namespace MidiScore

/-- What a track says about the whole piece. -/
inductive MetaEvent where
  | timeSignature (numerator denominatorLog2 clocksPerClick thirtySecondsPerQuarter : Nat)
  /-- Microseconds per quarter note. -/
  | tempo (micros : Nat)
  | endOfTrack
deriving DecidableEq, Repr

namespace MetaEvent

/-- The type byte. -/
def subtype : MetaEvent → Nat
  | timeSignature .. => 0x58
  | tempo _ => 0x51
  | endOfTrack => 0x2F

/-- The payload. A tempo is three bytes, the highest first. -/
def data : MetaEvent → List UInt8
  | timeSignature n d c b => [.ofNat n, .ofNat d, .ofNat c, .ofNat b]
  | tempo t => [.ofNat (t / 65536), .ofNat (t / 256), .ofNat t]
  | endOfTrack => []

end MetaEvent

/-- A channel-voice message or a meta event. -/
inductive Message where
  | noteOn (channel key velocity : Nat)
  | noteOff (channel key velocity : Nat)
  | controlChange (channel controller value : Nat)
  | programChange (channel program : Nat)
  | pitchBend (channel value : Nat)
  | metaEvent (event : MetaEvent)
deriving DecidableEq, Repr

/-- The bend that leaves the pitch as it is. -/
def bendCenter : Nat := 8192

/-- The greatest bend. -/
def bendMax : Nat := 16383

namespace Message

/-- Refuses a number above its limit. -/
def check (quantity : Quantity) (limit value : Nat) : Except ValueError Unit :=
  if value ≤ limit then .ok () else .error (.range quantity value)

theorem check_eq_ok_iff {q : Quantity} {limit n : Nat} : check q limit n = .ok () ↔ n ≤ limit := by
  unfold check
  split <;> simp_all

theorem check_bind_eq_ok_iff {q : Quantity} {limit n : Nat} {k : Except ValueError Unit} :
    (check q limit n >>= fun _ => k) = .ok () ↔ n ≤ limit ∧ k = .ok () := by
  unfold check
  by_cases h : n ≤ limit
  · rw [if_pos h]
    simp [h, bind, Except.bind]
  · rw [if_neg h]
    simp [h, bind, Except.bind]

/-- Checks the numbers of a message. The channel comes first, except before a bend. -/
def validate : Message → Except ValueError Unit
  | noteOn ch key vel | noteOff ch key vel => do
    check .channel 15 ch
    check .key 127 key
    check .velocity 127 vel
  | controlChange ch num val => do
    check .channel 15 ch
    check .controller 127 num
    check .controllerValue 127 val
  | programChange ch prog => do
    check .channel 15 ch
    check .program 127 prog
  | pitchBend ch val => do
    check .pitchBend bendMax val
    check .channel 15 ch
  | metaEvent _ => .ok ()

section Valid

variable {channel key velocity number value program : Nat}

theorem validate_noteOn :
    (noteOn channel key velocity).validate = .ok () ↔
      channel ≤ 15 ∧ key ≤ 127 ∧ velocity ≤ 127 := by
  simp only [validate, check_bind_eq_ok_iff, check_eq_ok_iff]

theorem validate_noteOff :
    (noteOff channel key velocity).validate = .ok () ↔
      channel ≤ 15 ∧ key ≤ 127 ∧ velocity ≤ 127 := by
  simp only [validate, check_bind_eq_ok_iff, check_eq_ok_iff]

theorem validate_controlChange :
    (controlChange channel number value).validate = .ok () ↔
      channel ≤ 15 ∧ number ≤ 127 ∧ value ≤ 127 := by
  simp only [validate, check_bind_eq_ok_iff, check_eq_ok_iff]

theorem validate_programChange :
    (programChange channel program).validate = .ok () ↔ channel ≤ 15 ∧ program ≤ 127 := by
  simp only [validate, check_bind_eq_ok_iff, check_eq_ok_iff]

theorem validate_pitchBend :
    (pitchBend channel value).validate = .ok () ↔ value ≤ bendMax ∧ channel ≤ 15 := by
  simp only [validate, check_bind_eq_ok_iff, check_eq_ok_iff]

end Valid

theorem key_lt_of_validate {channel key velocity : Nat}
    (h : (noteOn channel key velocity).validate = .ok ()) : key < 128 := by
  simp only [validate, check_bind_eq_ok_iff] at h
  omega

/-- The message itself, if its numbers are in range. -/
def checked (m : Message) : Except ValueError Message := do
  m.validate
  return m

/-- Whether the message strikes a key. -/
def isNoteOn : Message → Bool
  | noteOn .. => true
  | _ => false

/-- Whether the message releases a key. -/
def isNoteOff : Message → Bool
  | noteOff .. => true
  | _ => false

/-- Whether the message is for a channel. -/
def isVoice : Message → Bool
  | metaEvent _ => false
  | _ => true

/-- The status byte: the kind in the high half, the channel in the low one. -/
def status (kind channel : Nat) : UInt8 :=
  .ofNat (kind ||| channel)

/-- The bytes of a message. -/
def encode : Message → List UInt8
  | noteOn ch key vel => [status 0x90 ch, .ofNat key, .ofNat vel]
  | noteOff ch key vel => [status 0x80 ch, .ofNat key, .ofNat vel]
  | controlChange ch num val => [status 0xB0 ch, .ofNat num, .ofNat val]
  | programChange ch prog => [status 0xC0 ch, .ofNat prog]
  | pitchBend ch val => [status 0xE0 ch, .ofNat (val % 128), .ofNat (val / 128)]
  | metaEvent event => 0xFF :: .ofNat event.subtype :: .ofNat event.data.length :: event.data

end Message

/-- A message at an absolute tick. -/
structure Event where
  tick : Nat
  message : Message
deriving DecidableEq, Repr

end MidiScore
