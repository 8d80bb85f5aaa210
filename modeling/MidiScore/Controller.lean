/-!
# Controllers

A channel has controllers, by number. Most are knobs, which hold a value; a few are pedals, which
are up or down.
-/

namespace MidiScore

/-- A knob with the last value it was given, or a pedal that may be down. -/
inductive Controller where
  | knob (number : Nat) (value : Option Nat)
  | pedal (number : Nat) (down : Bool)
deriving DecidableEq, Repr

namespace Controller

/-- The number of the sustain pedal. -/
def sustain : Nat := 64

/-- The controller that silences a channel at once. -/
def allSoundsOff : Nat := 120

/-- The controllers that hold the high and the low half of a bank number. -/
def bankHigh : Nat := 0

def bankLow : Nat := 32

/-- The controller with a number, before it is first set. The numbers 64 to 69 are pedals. -/
def fresh (number : Nat) : Controller :=
  if 64 ≤ number ∧ number ≤ 69 then pedal number false else knob number none

/-- The number of a controller. -/
def number : Controller → Nat
  | knob n _ => n
  | pedal n _ => n

/-- Takes over a value. A pedal is down from 64 on. -/
def set (c : Controller) (value : Nat) : Controller :=
  match c with
  | knob n _ => knob n (some value)
  | pedal n _ => pedal n (64 ≤ value)

/-- The value that puts a fresh controller into this state. A knob that was never set stands in the
middle. -/
def value : Controller → Nat
  | knob _ v => v.getD 64
  | pedal _ down => if down then 127 else 0

end Controller

end MidiScore
