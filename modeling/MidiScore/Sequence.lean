import MidiScore.Music.Timing
import MidiScore.Track

/-!
# Sequences

A sequence gathers the tracks of one piece under a common timing. A slot is reserved for each track
before it is filled; slots that were never filled are passed over.
-/

namespace MidiScore

/-- A place for a track. -/
structure Slot where
  channel : Nat
  track : Option Track := none
deriving DecidableEq, Repr

/-- The tracks of a piece, in the order in which their slots were reserved. -/
structure Sequence where
  timing : Timing
  slots : List Slot := []
deriving DecidableEq

/-- A slot that was never reserved. -/
structure UnknownTrack where
  id : Nat
deriving DecidableEq, Repr

/-- The text of the error. -/
def UnknownTrack.message (e : UnknownTrack) : String :=
  s!"Track not registered: TrackId({e.id})"

/-- The events of a filled slot. -/
structure TrackEvents where
  id : Nat
  channel : Nat
  events : List Event
deriving DecidableEq, Repr

namespace Sequence

/-- Reserves a slot and returns its number. -/
def reserve (s : Sequence) (channel : Nat) : Nat × Sequence :=
  (s.slots.length, { s with slots := s.slots ++ [{ channel }] })

/-- Fills a slot. -/
def submit (s : Sequence) (id : Nat) (track : Track) : Except UnknownTrack Sequence :=
  if id < s.slots.length then
    .ok { s with slots := s.slots.modify id fun slot => { slot with track := some track } }
  else .error ⟨id⟩

/-- The tracks that were submitted, with their numbers. -/
def tracks (s : Sequence) : List TrackEvents :=
  s.slots.zipIdx.filterMap fun (slot, id) =>
    slot.track.map fun track => { id, channel := slot.channel, events := track.events }

/-- The last tick with an event in any track, or zero. -/
def endTick (s : Sequence) : Nat :=
  (s.slots.filterMap (·.track.map Track.endTick)).foldl max 0

end Sequence

end MidiScore
