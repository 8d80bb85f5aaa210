import MidiScore.Channel.Basic

/-!
# Handing out MIDI channels

A melodic block is given the lowest free channel but never the percussion channel, which is kept for
the one percussion block.
-/

namespace MidiScore

/-- The channels that are still free, in ascending order. -/
structure ChannelPool where
  melodic : List Nat := (List.range 16).filter (· ≠ Channel.percussionNumber)
  percussion : List Nat := [Channel.percussionNumber]
deriving DecidableEq, Repr

namespace ChannelPool

/-- Takes a channel for a percussion block or a melodic one, if one is free. -/
def take? (pool : ChannelPool) (percussion : Bool) : Option (Nat × ChannelPool) :=
  if percussion then
    match pool.percussion with
    | n :: rest => some (n, { pool with percussion := rest })
    | [] => none
  else
    match pool.melodic with
    | n :: rest => some (n, { pool with melodic := rest })
    | [] => none

/-- Takes a channel for each block in turn. A block for which none is free is passed over. -/
def takeEach (pool : ChannelPool) : List Bool → List (Option Nat)
  | [] => []
  | percussion :: rest =>
    match pool.take? percussion with
    | some (n, pool) => some n :: pool.takeEach rest
    | none => none :: pool.takeEach rest

end ChannelPool

end MidiScore
