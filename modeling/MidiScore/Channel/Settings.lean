import MidiScore.Channel.Basic

/-!
# Settings of a channel

Setting an instrument, a bank, a bend or a controller sends it and remembers it. A setting that
cannot be sent fails before anything is changed. Muting cuts what sounds with a message that is
written even though the channel falls silent.
-/

namespace MidiScore.ChannelM

/-- Sets the dynamic. -/
def setDynamic (dynamic : Dynamic) : ChannelM Unit :=
  modify fun c => { c with dynamic }

/-- Sets the octaves by which pitches are moved. -/
def setOctave (octave : Int) : ChannelM Unit :=
  modify fun c => { c with octave }

/-- Sets the semitones by which pitches are moved. -/
def setTransposition (transposition : Int) : ChannelM Unit :=
  modify fun c => { c with transposition }

/-- Turns slurring on or off. -/
def setSlurred (slurred : Bool) : ChannelM Unit :=
  modify fun c => { c with slurred }

/-- Sends the two halves of a user bank. -/
def sendBank (bank : Nat) : ChannelM Unit := do
  let n := (← get).number
  check (.controlChange n Controller.bankHigh 121)
  check (.controlChange n Controller.bankLow bank)
  send (.controlChange n Controller.bankHigh 121)
  send (.controlChange n Controller.bankLow bank)

/-- Sets the instrument. If a bank is set it is sent first. -/
def setInstrument (program : Nat) : ChannelM Unit := do
  let c ← get
  check (.programChange c.number program)
  if let some bank := c.bank then
    sendBank bank
  send (.programChange c.number program)
  modify fun c => { c with instrument := some program }

/-- Sets the user bank and sends the instrument again, the first one if none is set. -/
def setBank (bank : Nat) : ChannelM Unit := do
  let c ← get
  check (.controlChange c.number Controller.bankLow bank)
  modify fun c => { c with bank := some bank }
  setInstrument (c.instrument.getD 0)

/-- Writes the message that cuts all sound, muted or not. -/
def cutSound : ChannelM Unit := do
  let m := Message.controlChange (← get).number Controller.allSoundsOff 0
  check m
  modify (·.write m)

/-- Mutes the channel or lets it sound again. -/
def setMuted (muted : Bool) : ChannelM Unit := do
  if muted && !(← get).muted then
    cutSound
  modify fun c => { c with muted }

/-- Bends the pitch. -/
def setBend (bend : Nat) : ChannelM Unit := do
  send (.pitchBend (← get).number bend)
  modify fun c => { c with bend }

/-- Sends a value to a controller and remembers it. -/
def setController (number value : Nat) : ChannelM Unit := do
  send (.controlChange (← get).number number value)
  modify fun c =>
    { c with controllers := c.controllers.setIfInBounds number ((c.controller number).set value) }

/-- Presses a pedal, or sets a knob to its greatest value. -/
def pressPedal (number : Nat) : ChannelM Unit :=
  setController number 127

/-- Lifts a pedal, or sets a knob to zero. -/
def releasePedal (number : Nat) : ChannelM Unit :=
  setController number 0

end MidiScore.ChannelM
