import MidiScore.Composition.Block
import MidiScore.Midi.File.Basic
import MidiScore.Rendezvous
import MidiScore.Sequence
import MidiScore.Text.Quoted

/-!
# Why a composition cannot be compiled

`CompileError` lists the reasons, and `CompileError.message` is the one place that words them.
-/

namespace MidiScore

/-- Why a composition cannot be put together, compiled or written. -/
inductive CompileError where
  /-- No channel is free for a block. -/
  | noChannel (block : String) (percussion : Bool)
  /-- No worker can carry the name of a block. -/
  | unusableName (block : String)
  /-- A statement of a block fails. -/
  | statement (block : String) (location : Location) (cause : Failure)
  /-- A meeting names an output that has no block. -/
  | unknownOutput (output : Nat) (location : Location)
  /-- A block repeats for ever. -/
  | unboundedRepeat (block : String)
  /-- A number of a block outgrew its word. -/
  | overflow (block : String)
  /-- Blocks wait for others that will never come. -/
  | stalled (patience : Nat) (blocks : List String)
  /-- A channel fails outside its statements. -/
  | channel (cause : Failure)
  /-- A meeting has too few members. -/
  | members (cause : TooFewMembers)
  /-- A track has no slot. -/
  | track (cause : UnknownTrack)
  /-- The sequence cannot be written. -/
  | file (cause : FileError)
deriving DecidableEq

/-- A number of milliseconds in seconds from one second on, without trailing zeros. -/
def durationText (millis : Nat) : String :=
  if millis = 0 then "0ns"
  else if millis < 1000 then s!"{millis}ms"
  else
    let fraction := (toString (1000 + millis % 1000)).toList.tail
    let kept := (fraction.reverse.dropWhile (· = '0')).reverse
    let shown := if kept.isEmpty then "" else "." ++ String.ofList kept
    s!"{millis / 1000}{shown}s"

/-- The text of an error. -/
def CompileError.message : CompileError → String
  | noChannel block percussion => s!"No free channel for block '{block}' (percussion: {percussion})"
  | unusableName block => s!"No worker can be named for block '{block}'"
  | statement block location cause => s!"Block '{block}' at {location.text}: {cause.message}"
  | unknownOutput output location =>
    s!"Sync at {location.text} names output {output}, which has no block"
  | unboundedRepeat block => s!"Block '{block}' repeats without a bound"
  | overflow block => s!"Worker for block '{block}' panicked"
  | stalled patience blocks =>
    let names := Quoted.encodeList blocks
    s!"No worker finished within {durationText patience}; still running: {names}"
  | channel cause => cause.message
  | members cause => cause.message
  | track cause => cause.message
  | file cause => cause.message

example : durationText 1500 = "1.5s" := by decide

example : durationText 150 = "150ms" := by decide

end MidiScore
