import MidiScore.Music.Beat
import MidiScore.Midi.Message
import MidiScore.Number.Bounded

/-!
# Timing and directives

A timing fixes the time signature, the tempo and the number of ticks in a quarter note. A directive
says on which ticks a block may start and how often it is played.
-/

namespace MidiScore

/-- The microseconds in a minute. -/
def microsPerMinute : Nat := 60000000

/-- A time signature, a tempo and a resolution in ticks per quarter note. The tempo can be written
as a tempo message and the resolution in a file header. -/
structure Timing where
  numerator : Nat := 4
  denominator : Nat := 4
  bpm : Nat := 120
  ppqn : Nat := 960
  signature_valid : (0 < numerator ∧ numerator < 256) ∧ 0 < denominator ∧ denominator < 256 :=
    by decide
  tempo_valid : 0 < bpm ∧ microsPerMinute / bpm < 0x1000000 := by decide
  ppqn_valid : 0 < ppqn ∧ ppqn < 0x8000 := by decide
deriving DecidableEq

namespace Timing

/-- Common time at 120 beats a minute. -/
def standard : Timing where

/-- The resolution of a timing that names none. -/
def defaultPpqn : Nat :=
  standard.ppqn

/-- The timing with the given numbers, which are checked in their order. -/
def make (numerator denominator bpm ppqn : Nat) : Except ValueError Timing :=
  if hs : (0 < numerator ∧ numerator < 256) ∧ 0 < denominator ∧ denominator < 256 then
    if ht : 0 < bpm ∧ microsPerMinute / bpm < 0x1000000 then
      if hp : 0 < ppqn ∧ ppqn < 0x8000 then
        .ok ⟨numerator, denominator, bpm, ppqn, hs, ht, hp⟩
      else .error (.resolution ppqn)
    else .error (.tempo bpm)
  else .error (.timeSignature numerator denominator)

/-- The ticks in a beat, rounded to the nearest. -/
def ticksInBeat (t : Timing) (b : Beat) : Nat :=
  nearestTick (Float.ofNat t.ppqn * b.quarters)

/-- The microseconds that ticks take, unless the product on the way outgrows 64 bits. -/
def micros? (t : Timing) (ticks : Nat) : Option Nat :=
  (Bounded.nat? 64 (ticks * microsPerMinute)).map (· / (t.ppqn * t.bpm))

/-- The microseconds that a beat takes, rounded to the nearest. -/
def approxMicros (t : Timing) (b : Beat) : Nat :=
  nearestTick (Float.ofNat microsPerMinute * b.quarters / Float.ofNat t.bpm)

/-- The microseconds in a quarter note. -/
def microsPerQuarter (t : Timing) : Nat :=
  microsPerMinute / t.bpm

/-- The ticks in the beat that the denominator names. -/
def ticksPerUnit (t : Timing) : Nat :=
  t.ppqn * 4 / t.denominator

/-- The ticks in a measure. -/
def ticksPerMeasure (t : Timing) : Nat :=
  t.ppqn * 4 * t.numerator / t.denominator

/-- The time signature as an event. Its denominator is rounded down to a power of two. -/
def signatureEvent (t : Timing) : MetaEvent :=
  .timeSignature t.numerator t.denominator.log2 24 8

/-- The tempo as an event. -/
def tempoEvent (t : Timing) : MetaEvent :=
  .tempo t.microsPerQuarter

end Timing

/-- Where a block may start, besides on its grid. -/
inductive Alignment where
  /-- On any tick. -/
  | immediate
  /-- On the beats that the time signature counts. -/
  | beat
  /-- On the first tick of a measure. -/
  | measure
deriving DecidableEq, Repr

/-- On which ticks a block may start and how often it is played. -/
structure Directive where
  /-- A grid to start on. -/
  quantize : Option Beat := none
  align : Alignment := .immediate
  /-- The number of passes; without one the block repeats until it is interrupted. -/
  passes : Option Nat := some 1
  interruptible : Bool := false
deriving DecidableEq

namespace Directive

/-- The least common multiple, where zero stands for no constraint, unless it outgrows 64 bits. -/
def commonGrid? (a b : Nat) : Option Nat :=
  if a = 0 then some b
  else if b = 0 then some a
  else Bounded.nat? 64 (Nat.lcm a b)

/-- The least multiple of `grid` that is not below `tick`, unless it outgrows 64 bits. Without a
grid it is the tick itself. -/
def roundUp? (tick grid : Nat) : Option Nat :=
  if grid = 0 then some tick else Bounded.nat? 64 ((tick + grid - 1) / grid * grid)

/-- The ticks of the quantizing grid, or zero without one. -/
def gridTicks (d : Directive) (t : Timing) : Nat :=
  (d.quantize.map t.ticksInBeat).getD 0

/-- The ticks of the alignment, or zero without one. -/
def alignTicks (d : Directive) (t : Timing) : Nat :=
  match d.align with
  | .immediate => 0
  | .beat => t.ticksPerUnit
  | .measure => t.ticksPerMeasure

/-- The earliest tick from `now` on that lies on the grid and the alignment, unless it or their
common grid outgrows 64 bits. -/
def alignedTick? (d : Directive) (now : Nat) (t : Timing) : Option Nat := do
  roundUp? now (← commonGrid? (d.gridTicks t) (d.alignTicks t))

end Directive

end MidiScore
