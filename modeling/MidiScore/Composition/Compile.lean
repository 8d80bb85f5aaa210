import MidiScore.Composition.Basic
import MidiScore.Composition.ChannelPool
import MidiScore.Composition.Settling
import MidiScore.Midi.File.Writer

/-!
# Compiling compositions

Every block is given a channel, and then a worker of its name, before any block is played. Then its
worker plays it, and the tracks of all workers make the sequence. If a worker fails, so does the
compile; if none fails but some wait for ever, it stalls.
-/

namespace MidiScore

/-- How a composition is compiled. -/
structure CompileOptions where
  timing : Timing := .standard
  /-- The milliseconds after which waiting blocks are given up. -/
  patience : Nat := 3000

/-- The sequence of an ensemble that has come to rest, or why there is none. -/
def Ensemble.outcome (e : Ensemble) (patience : Nat) : Except CompileError Sequence :=
  match e.workers.findSome? (·.failure?) with
  | some cause => .error cause
  | none =>
    match e.workers.filter (!·.isFinished) with
    | [] => .ok e.sequence
    | stuck => .error (.stalled patience (stuck.map (·.block.name)))

namespace Composition

/-- The workers for blocks, each with a free channel and the next slot of the sequence. -/
def enlist (timing : Timing) (pool : ChannelPool) (sequence : Sequence) :
    List Block → Except CompileError (List Worker × Sequence)
  | [] => .ok ([], sequence)
  | b :: rest =>
    match pool.take? b.percussion with
    | none => .error (.noChannel b.name b.percussion)
    | some (number, pool) => do
      let (slot, sequence) := sequence.reserve number
      let (workers, sequence) ← enlist timing pool sequence rest
      return (.start b slot number timing :: workers, sequence)

/-- The ensemble that is to play a composition. -/
def ensemble (c : Composition) (timing : Timing) : Except CompileError Ensemble := do
  let (workers, sequence) ← enlist timing {} { timing } c.blocks
  match c.blocks.find? (!·.isNamable) with
  | some b => throw (.unusableName b.name)
  | none => return { workers, links := c.links, sequence }

/-- The sequence of all blocks. -/
def compile (c : Composition) (options : CompileOptions) : Except CompileError Sequence := do
  let e ← c.ensemble options.timing
  e.settle.outcome options.patience

/-- The composition as a MIDI file, with the sequence that is in it. -/
def render (c : Composition) (options : CompileOptions) :
    Except CompileError (Sequence × List UInt8) := do
  let sequence ← c.compile options
  match MidiFile.write sequence with
  | .ok bytes => return (sequence, bytes)
  | .error cause => throw (.file cause)

end Composition

end MidiScore
