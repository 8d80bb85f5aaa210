import MidiScore.Music.Beat
import MidiScore.Number.Bounded

/-!
# Dynamics and ramps

A dynamic is the velocity keys are struck with. A ramp moves it in a straight line from one dynamic
to another, one step for each unit of velocity; its last step lands on the final dynamic at the
final tick.
-/

namespace MidiScore

/-- How loud keys are struck: a velocity from 0 to 127. -/
structure Dynamic where
  velocity : Nat
  velocity_le : velocity ≤ 127 := by omega
deriving DecidableEq, Repr

namespace Dynamic

def pppp : Dynamic := { velocity := 8 }
def ppp : Dynamic := { velocity := 20 }
def pp : Dynamic := { velocity := 31 }
def p : Dynamic := { velocity := 42 }
def mp : Dynamic := { velocity := 53 }
def mf : Dynamic := { velocity := 64 }
def f : Dynamic := { velocity := 80 }
def ff : Dynamic := { velocity := 96 }
def fff : Dynamic := { velocity := 112 }
def ffff : Dynamic := { velocity := 127 }

/-- The dynamics that have a name. -/
def named : List (String × Dynamic) :=
  [("pppp", pppp), ("ppp", ppp), ("pp", pp), ("p", p), ("mp", mp),
   ("mf", mf), ("f", f), ("ff", ff), ("fff", fff), ("ffff", ffff)]

/-- The dynamic with the given velocity. -/
def ofVelocity (velocity : Nat) : Except ValueError Dynamic :=
  if h : velocity ≤ 127 then .ok ⟨velocity, h⟩ else .error (.range .velocity velocity)

/-- The dynamic with the given name. -/
def ofName? (name : String) : Option Dynamic :=
  named.lookup name

/-- The name of a dynamic, or its velocity if it has none. -/
def name (d : Dynamic) : String :=
  match named.find? (·.2 = d) with
  | some (name, _) => name
  | none => s!"v{d.velocity}"

/-- The velocity clamped into the range of velocities. -/
def clampVelocity (v : Int) : Nat :=
  (min v 127).toNat

/-- The velocity raised by `delta`, clamped into the range of velocities, unless the sum outgrows a
signed word of 32 bits. -/
def louder? (d : Dynamic) (delta : Int) : Option Nat :=
  (Bounded.int? 32 (d.velocity + delta)).map clampVelocity

end Dynamic

/-- A change of dynamic from `start` to `stop` over a duration. -/
structure Ramp where
  kind : RampKind
  start : Dynamic
  stop : Dynamic
  duration : Beat

/-- Numbers that a ramp can be drawn with. -/
class RampNumber (α : Type) extends Add α, Mul α, Div α where
  ofInt : Int → α
  /-- Whether one number is less than another. -/
  less : α → α → Bool
  /-- The nearest natural number, a half upwards, clamped into the range of ticks. -/
  nearest : α → Nat

instance : RampNumber Float where
  ofInt := Float.ofInt
  less x y := x < y
  nearest := nearestTick

namespace Ramp

/-- The ramp between two dynamics. A crescendo must not end below its start, nor a decrescendo
above it. -/
def between (kind : RampKind) (start stop : Dynamic) (duration : Beat) :
    Except ValueError Ramp :=
  let wrongWay : Bool := match kind with
    | .crescendo => stop.velocity < start.velocity
    | .decrescendo => start.velocity < stop.velocity
  if wrongWay then .error (.ramp kind start.velocity stop.velocity)
  else .ok { kind, start, stop, duration }

/-- The change of velocity over the whole ramp. -/
def rise (r : Ramp) : Int :=
  (r.stop.velocity : Int) - r.start.velocity

section Drawing

variable {α : Type} [RampNumber α]

/-- The velocity of the line through `start` with the given slope at a tick. -/
def velocityAt (start slope : α) (tick : Nat) : Nat :=
  min (RampNumber.nearest (slope * RampNumber.ofInt tick + start)) 127

/-- The steps from time `t` on, `interval` apart, while `t` lies before `total`, at most `n` of
them. A step that repeats the `last` velocity is left out. -/
def stepsFrom (start slope interval total : α) (n : Nat) (t : α) (last : Option Nat) :
    List (Nat × Nat) :=
  match n with
  | 0 => []
  | n + 1 =>
    if RampNumber.less t total then
      let tick := RampNumber.nearest t
      let velocity := velocityAt start slope tick
      let later := stepsFrom start slope interval total n (t + interval) (some velocity)
      if last = some velocity then later else (tick, velocity) :: later
    else []

variable (α) in
/-- The steps of the ramp over `total` ticks, as ticks and velocities, drawn with numbers `α`. There
is a step for each unit of velocity; summing the intervals may leave room for one more. -/
def stepsWith (r : Ramp) (total : Nat) : List (Nat × Nat) :=
  let line : List (Nat × Nat) :=
    if r.rise ≠ 0 ∧ 0 < total then
      stepsFrom (RampNumber.ofInt (α := α) r.start.velocity)
        (RampNumber.ofInt r.rise / RampNumber.ofInt total)
        (RampNumber.ofInt total / RampNumber.ofInt r.rise.natAbs)
        (RampNumber.ofInt total) (r.rise.natAbs + 1) (RampNumber.ofInt 0) none
    else []
  line ++ [(total, r.stop.velocity)]

end Drawing

/-- The steps of the ramp over `total` ticks, as ticks and velocities. -/
def steps (r : Ramp) (total : Nat) : List (Nat × Nat) :=
  r.stepsWith Float total

end Ramp

end MidiScore
