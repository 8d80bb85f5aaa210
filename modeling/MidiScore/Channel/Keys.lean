import MidiScore.Channel.Basic

/-!
# Keys of a channel

Striking a key writes its note-on and promises its release. While the channel slurs, a key that was
released no more than a tick ago is joined to its new strike: the release is pulled out of the track
and the key is struck softly.
-/

namespace MidiScore

/-- The velocity of a strike that joins a released key: the dynamic less a third of the strike's
own loudness, and audible. -/
def Dynamic.softened? (d : Dynamic) (delta : Int) : Option Nat := do
  let loudness ← Bounded.int? 32 (d.velocity + delta)
  let fall ← Bounded.int? 32 (-loudness)
  return max (← d.louder? (fall.tdiv 3)) 1

/-- The handle of the release that a strike of `key` joins: the channel slurs, the key was released
while it did, and the release lies no more than a tick before the clock. -/
def Channel.joinedRelease? (c : Channel) (key : Nat) : Except Failure (Option Nat) :=
  if !c.slurred then .ok none
  else if 128 ≤ key then .error .overflow
  else if c.noteState key ≠ .offSlurred then .ok none
  else
    match (c.release? key).bind fun handle =>
        (c.track.get? handle).map fun e => (handle, e.tick) with
    | none => .ok none
    | some (handle, tick) =>
      match Bounded.nat? 64 (tick + 1) with
      | none => .error .overflow
      | some next => .ok (if c.clock ≤ next then some handle else none)

namespace ChannelM

/-- Promises an action `delta` ticks from now. With a delta of zero or less it is due now, behind
what is already due. -/
def later (delta : Int) (action : Action) : ChannelM Unit := do
  let c ← get
  let tick ← ofOption (if delta ≤ 0 then some c.clock else Bounded.nat? 64 (c.clock + delta.toNat))
  modify fun c => { c with pending := c.pending.push tick action }

/-- Promises an action at the end of a duration, read as a signed word. -/
def after (duration : Nat) (action : Action) : ChannelM Unit :=
  later (Bounded.signed 64 duration) action

/-- Records what was done with a key. -/
def setNote (key : Nat) (state : NoteState) : ChannelM Unit :=
  modify fun c => { c with notes := c.notes.setIfInBounds key state }

/-- Writes the note-on of a key. -/
def noteOn (key velocity : Nat) : ChannelM Unit := do
  let c ← get
  send (.noteOn c.number key velocity)
  setNote key (if c.slurred then .onSlurred else .on)

/-- Writes the note-off of a key and keeps its handle. A muted channel writes none. -/
def noteOff (key velocity : Nat) : ChannelM Unit := do
  let c ← get
  let m := Message.noteOff c.number key velocity
  check m
  modify fun c =>
    { c.emit m with releases := c.releases.setIfInBounds key c.emitHandle }
  setNote key (if c.slurred then .offSlurred else .off)

/-- Pulls a release of a key out of the track. -/
def takeBack (key handle : Nat) : ChannelM Unit :=
  modify fun c =>
    { c with
      track := c.track.erase handle
      releases := c.releases.setIfInBounds key none }

/-- Pulls out the release that a strike of `key` joins, and says whether there was one. -/
def retractRelease (key : Nat) : ChannelM Bool := do
  match ← ofExcept ((← get).joinedRelease? key) with
  | some handle =>
    takeBack key handle
    return true
  | none => return false

/-- The velocity to strike a key with: soft if its release was pulled out. -/
def attackVelocity (key : Nat) (delta : Int) : ChannelM Nat := do
  if ← retractRelease key then
    ofOption ((← get).dynamic.softened? delta)
  else
    ofOption ((← get).dynamic.louder? delta)

/-- Strikes a key and promises its release. -/
def strike (key : Nat) (delta : Int) (duration offVelocity : Nat) : ChannelM Unit := do
  let velocity ← attackVelocity key delta
  noteOn key velocity
  after duration (.noteOff key offVelocity)

/-- Strikes the key that sounds for a pitch. A rest does nothing. -/
def playNote (p : Pitch) (delta : Int) (duration offVelocity : Nat) : ChannelM Unit := do
  match (← get).soundingKey p with
  | some key => strike key delta duration offVelocity
  | none => return ()

end ChannelM

end MidiScore
