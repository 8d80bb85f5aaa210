import MidiScore.Midi.Message

/-!
# Tracks

A track is a log of the events written for one channel. Each event has a handle, its place in the
order of writing, by which it can be pulled out again; no other event is ever given that handle.
-/

namespace MidiScore

/-- The events written for a channel, with gaps where events were pulled out. -/
structure Track where
  channel : Nat
  log : Array (Option Event) := #[]
deriving DecidableEq, Repr

namespace Track

/-- The handle of the next event. -/
def nextHandle (t : Track) : Nat :=
  t.log.size

/-- Writes an event, under the handle `t.nextHandle`. -/
def push (t : Track) (e : Event) : Track :=
  { t with log := t.log.push (some e) }

/-- The event under a handle, unless it was pulled out. -/
def get? (t : Track) (handle : Nat) : Option Event :=
  t.log[handle]?.join

/-- Pulls out the event under a handle. -/
def erase (t : Track) (handle : Nat) : Track :=
  { t with log := t.log.setIfInBounds handle none }

/-- The events that were not pulled out, in the order of writing. -/
def written (t : Track) : List Event :=
  t.log.toList.filterMap id

/-- The events by tick; those of one tick are in the order of writing. -/
def events (t : Track) : List Event :=
  t.written.mergeSort fun a b => a.tick ≤ b.tick

/-- The number of events. -/
def size (t : Track) : Nat :=
  t.written.length

/-- The last tick with an event, or zero. -/
def endTick (t : Track) : Nat :=
  (t.written.map (·.tick)).foldl max 0

end Track

end MidiScore
