import MidiScore.Agenda
import MidiScore.Controller
import MidiScore.Music.Dynamic
import MidiScore.Music.Pitch
import MidiScore.Music.Timing
import MidiScore.Track

/-!
# Channels

A channel drives one track. It has a virtual clock, an agenda of actions it has promised to do, and
the state of its keys, controllers and settings. An operation is a `ChannelM`: it changes the
channel and may fail, and a failed operation keeps the changes made before it failed.
-/

namespace MidiScore

/-- What a channel can promise to do later. -/
inductive Action where
  /-- Release a sounding key. -/
  | noteOff (key velocity : Nat)
  /-- Strike a sounding key, and release it `duration` ticks later. -/
  | play (key : Nat) (delta : Int) (duration offVelocity : Nat)
  | setDynamic (dynamic : Dynamic)
  | turnKnob (controller value : Nat)
  | pressPedal (controller : Nat)
  | releasePedal (controller : Nat)
  | bend (value : Nat)
  | resetBend
deriving DecidableEq, Repr

/-- What a channel last did with a key. -/
inductive NoteState where
  | off
  | on
  | onSlurred
  /-- Released while slurring, so that striking the key again may take the release back. -/
  | offSlurred
deriving DecidableEq, Repr

/-- Whether the key is held. -/
def NoteState.isOn : NoteState → Bool
  | on | onSlurred => true
  | off | offSlurred => false

/-- Why an operation on a channel fails. -/
inductive Failure where
  /-- A value is refused. -/
  | value (cause : ValueError)
  /-- The channel cannot send a message. -/
  | refused (message : Message) (cause : ValueError)
  /-- A number outgrew its word, or a key the keyboard. -/
  | overflow
deriving DecidableEq

/-- What a channel was about to send, for the text of a failure. -/
def Message.describe : Message → String
  | .noteOn ch key vel => s!"note on (channel {ch} key {key} velocity {vel})"
  | .noteOff ch key vel => s!"note off (channel {ch} key {key} velocity {vel})"
  | .controlChange ch num val => s!"control change (channel {ch} cc {num} value {val})"
  | .programChange ch prog => s!"program change (channel {ch} program {prog})"
  | .pitchBend ch val => s!"pitch bend (channel {ch} value {val})"
  | .metaEvent event => s!"meta event (type {event.subtype})"

/-- The text of a failure. -/
def Failure.message : Failure → String
  | value cause => cause.message
  | refused m cause => s!"{m.describe}: {cause.message}"
  | overflow => "number out of range"

/-- One output track with its clock, its agenda and its state. -/
structure Channel where
  track : Track
  percussion : Bool := false
  timing : Timing := .standard
  /-- The current tick. -/
  clock : Nat := 0
  /-- The actions promised for later. -/
  pending : Agenda Action := .empty
  notes : Vector NoteState 128 := .replicate 128 .off
  /-- The handle of the release last written for each key. -/
  releases : Vector (Option Nat) 128 := .replicate 128 none
  controllers : Vector Controller 128 := .ofFn fun n => .fresh n
  dynamic : Dynamic := .mf
  octave : Int := 0
  transposition : Int := 0
  instrument : Option Nat := none
  bank : Option Nat := none
  muted : Bool := false
  bend : Nat := bendCenter
  slurred : Bool := false
deriving DecidableEq

/-- An operation on a channel. -/
abbrev ChannelM := EStateM Failure Channel

namespace Channel

/-- The MIDI channel on which percussion plays. -/
def percussionNumber : Nat := 9

/-- A channel in its first state, which writes on the given track. -/
def onTrack (track : Track) (percussion : Bool) (timing : Timing) : Except Failure Channel :=
  if track.channel ≤ 15 then .ok { track, percussion, timing }
  else .error (.value (.range .channel track.channel))

/-- The MIDI channel that messages are sent on. -/
def number (c : Channel) : Nat :=
  c.track.channel

/-- What was last done with a key. -/
def noteState (c : Channel) (key : Nat) : NoteState :=
  c.notes[key]?.getD .off

/-- The handle of the release last written for a key. -/
def release? (c : Channel) (key : Nat) : Option Nat :=
  c.releases[key]?.join

/-- The controller with a number. -/
def controller (c : Channel) (number : Nat) : Controller :=
  c.controllers[number]?.getD (.fresh number)

/-- The value a controller stands at. -/
def controllerValue (c : Channel) (number : Nat) : Nat :=
  (c.controller number).value

/-- The key that sounds for a pitch. Percussion keys name drums and are never moved. -/
def soundingKey (c : Channel) (p : Pitch) : Option Nat :=
  if c.percussion then p.number?
  else ((p.shiftOctave c.octave).transpose c.transposition).number?

/-- Writes a message at the current tick. -/
def write (c : Channel) (m : Message) : Channel :=
  { c with track := c.track.push ⟨c.clock, m⟩ }

/-- Writes a message at the current tick, unless the channel is muted. -/
def emit (c : Channel) (m : Message) : Channel :=
  if c.muted then c else c.write m

/-- The handle under which `emit` writes, if it writes. -/
def emitHandle (c : Channel) : Option Nat :=
  if c.muted then none else some c.track.nextHandle

end Channel

namespace ChannelM

/-- The channel that an operation leaves behind, whether or not it fails. -/
def leaves {α : Type} (m : ChannelM α) (c : Channel) : Channel :=
  match m c with
  | .ok _ c' => c'
  | .error _ c' => c'

section Leaves

variable {α β : Type} (c : Channel)

@[simp] theorem leaves_pure (a : α) : (pure a : ChannelM α).leaves c = c := rfl

@[simp] theorem leaves_throw (e : Failure) : (throw e : ChannelM α).leaves c = c := rfl

@[simp] theorem leaves_get : (get : ChannelM Channel).leaves c = c := rfl

@[simp] theorem leaves_modify (f : Channel → Channel) :
    (modify f : ChannelM PUnit).leaves c = f c := rfl

theorem leaves_of_ok {m : ChannelM α} {c c' : Channel} {a : α} (h : m c = .ok a c') :
    m.leaves c = c' := by
  simp [leaves, h]

theorem leaves_of_error {m : ChannelM α} {c c' : Channel} {e : Failure}
    (h : m c = .error e c') : m.leaves c = c' := by
  simp [leaves, h]

theorem leaves_bind_of_ok {m : ChannelM α} {c c' : Channel} {a : α} (f : α → ChannelM β)
    (h : m c = .ok a c') : (m >>= f).leaves c = (f a).leaves c' := by
  simp [leaves, Bind.bind, EStateM.bind, h]

theorem leaves_bind_of_error {m : ChannelM α} {c c' : Channel} {e : Failure}
    (f : α → ChannelM β) (h : m c = .error e c') : (m >>= f).leaves c = c' := by
  simp [leaves, Bind.bind, EStateM.bind, h]

end Leaves

/-- Takes a number that fits its word. -/
def ofOption {α : Type} : Option α → ChannelM α
  | some a => pure a
  | none => throw .overflow

/-- Takes a result, or fails as it did. -/
def ofExcept {α : Type} : Except Failure α → ChannelM α
  | .ok a => pure a
  | .error e => throw e

/-- Fails if a message cannot be sent. -/
def check (m : Message) : ChannelM Unit := fun c =>
  match m.validate with
  | .ok _ => .ok () c
  | .error e => .error (.refused m e) c

@[simp] theorem leaves_check (m : Message) (c : Channel) : (check m).leaves c = c := by
  cases h : m.validate <;> simp [check, leaves, h]

/-- Sends a message, unless the channel is muted. A message that cannot be sent fails even then. -/
def send (m : Message) : ChannelM Unit := do
  check m
  modify (·.emit m)

end ChannelM

end MidiScore
