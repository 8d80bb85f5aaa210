import MidiScore.Channel.Clock
import MidiScore.Music.Sound

/-!
# Performing sounds, phrases and ramps

A sound is shaped in a fixed order: its controllers are turned, it is struck, its release is
promised, and the controllers are turned back when it ends. A phrase plays its elements one after
the other, with the sustain pedal down while they are slurred; no slur is left on when it ends. A
ramp promises its steps and leaves the clock where it is.
-/

namespace MidiScore.ChannelM

/-- Turns knobs and returns where they stood. -/
def turnKnobs (knobs : List (Nat × Nat)) : ChannelM (List (Nat × Nat)) :=
  knobs.mapM fun (number, value) => do
    let old := (← get).controllerValue number
    setController number value
    return (number, old)

/-- The number of bends in a glissando. -/
def glissandoSteps : Nat := 16

/-- A note bent upwards in equal steps, with the bend taken back at its end. -/
def glissando (p : Pitch) (duration offVelocity : Nat) : ChannelM Unit := do
  playNote p 0 duration offVelocity
  (List.range glissandoSteps).forM fun step => do
    let product ← ofOption (Bounded.nat? 64 (duration * step))
    let value := bendCenter + (bendMax - bendCenter) * (step + 1) / glissandoSteps
    after (product / glissandoSteps) (.bend value)
  after duration .resetBend

/-- A chord of `n` tones strummed: tone `i` enters `i / 4n` of the duration late, and all end
together. -/
def roll (c : Chord) (duration offVelocity : Nat) : ChannelM Unit :=
  c.tones.zipIdx.forM fun (p, i) => do
    let product ← ofOption (Bounded.nat? 64 (duration * i))
    let delay := product / (c.size * 4)
    let hold := duration - delay
    if delay = 0 then
      playNote p 0 hold offVelocity
    else
      match (← get).soundingKey p with
      | some key => after delay (.play key 0 hold offVelocity)
      | none => return ()

/-- Strikes a pitch or chord as its articulation asks. -/
def strikePlayable (p : Playable) (a : Articulation) (duration : Nat) : ChannelM Unit :=
  match p, a with
  | .pitch p, .gliscando => glissando p duration a.offVelocity
  | .chord c, .gliscando => roll c duration a.offVelocity
  | .pitch p, _ => playNote p a.attackDelta duration a.offVelocity
  | .chord c, _ => c.tones.forM fun p => playNote p a.attackDelta duration a.offVelocity

/-- Plays a sound of the written length `b`. The clock stays where it is, and a rest is silent. -/
def playSound (s : Sound) (b : Beat) : ChannelM Unit := do
  if s.playable.isRest then
    return ()
  let duration := s.articulation.soundingTicks ((← get).timing.ticksInBeat b)
  let restores ← turnKnobs s.articulation.knobs
  strikePlayable s.playable s.articulation duration
  -- behind the releases, so that the knobs still shape them
  restores.forM fun (number, value) => after duration (.turnKnob number value)

/-- Puts the pedal and the slur where the next element wants them. -/
def changeSlur (slurring slurred : Bool) : ChannelM Unit := do
  if slurred && !slurring then
    pressPedal Controller.sustain
    setSlurred true
  else if !slurred && slurring then
    setSlurred false
    releasePedal Controller.sustain

/-- Plays elements one after the other, `slurring` or not before the first. -/
def playElements (slurring : Bool) : List (Sound × Beat) → ChannelM Unit
  | [] => return ()
  | (sound, beat) :: rest => do
    changeSlur slurring beat.slurred
    playSound sound beat
    let _ ← advanceBeat beat
    playElements beat.slurred rest

/-- Plays a phrase and returns the ticks it took. -/
def playPhrase (p : Phrase) : ChannelM Nat := do
  if p.size = 0 then
    return 0
  let start := (← get).clock
  playElements false p.elements
  setSlurred false
  releasePedal Controller.sustain
  return (← get).clock - start

/-- Promises a change to a velocity after some ticks. -/
def promiseDynamic (step : Nat × Nat) : ChannelM Unit := do
  match Dynamic.ofVelocity step.2 with
  | .ok dynamic => after step.1 (.setDynamic dynamic)
  | .error e => throw (.value e)

/-- Sets the dynamic to the start of a ramp and promises its steps. -/
def playRamp (r : Ramp) : ChannelM Unit := do
  let total := (← get).timing.ticksInBeat r.duration
  setDynamic r.start
  (r.steps total).forM promiseDynamic

end MidiScore.ChannelM
