import MidiScore.Channel.Settings

/-!
# Replacing the track of a channel

A channel can go on with a fresh track. Its clock starts again at zero, what is pending comes
forward with it, and what a listener must know is written again.
-/

namespace MidiScore.ChannelM

/-- The velocity of a key that is held over to another track. -/
def heldVelocity : Nat := 64

/-- Strikes the keys that are held again, without promising a release. -/
def restrike : ChannelM Unit := do
  let c ← get
  ((List.range 128).filter fun key => (c.noteState key).isOn).forM fun key =>
    send (.noteOn c.number key heldVelocity)

/-- Goes on with another track, which must be for the same MIDI channel, and returns the old one.
Instrument, bank, bend, mute and held keys are written again; controllers are not. -/
def replaceTrack (track : Track) : ChannelM Track := do
  let c ← get
  if track.channel ≠ c.number then
    throw (.value (.range .replacementChannel track.channel))
  set { c with
    track
    clock := 0
    pending := c.pending.rebase c.clock
    releases := .replicate 128 none }
  if let some program := c.instrument then
    setInstrument program
  if c.bend ≠ bendCenter then
    setBend c.bend
  if c.muted then
    cutSound
  restrike
  return c.track

end MidiScore.ChannelM
