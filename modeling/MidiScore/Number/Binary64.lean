/-!
# Binary floating point, taken apart

A `Float` is `± m · 2 ^ q` with naturals `m` below `2 ^ 53`. Reading it that way makes rounding and
printing exact arithmetic on naturals.
-/

namespace MidiScore

/-- The value of a floating-point number. -/
inductive Binary64 where
  /-- Not a number. -/
  | nan
  /-- An infinity. -/
  | infinite (negative : Bool)
  /-- The number `m · 2 ^ q`, negated if `negative`. -/
  | finite (negative : Bool) (m : Nat) (q : Int)
deriving DecidableEq, Repr

namespace Binary64

/-- Takes a floating-point number apart. Subnormal numbers share the least exponent. -/
def ofFloat (x : Float) : Binary64 :=
  let bits := x.toBits.toNat
  let negative := bits >>> 63 = 1
  let exponent : Nat := (bits >>> 52) % 2048
  let fraction : Nat := bits % (1 <<< 52)
  if exponent = 2047 then
    if fraction = 0 then infinite negative else nan
  else if exponent = 0 then finite negative fraction (-1074)
  else finite negative (fraction + (1 <<< 52)) (exponent - 1075)

/-- The quotient `a / b` rounded to the nearest natural number, a half upwards. -/
def roundQuotient (a b : Nat) : Nat :=
  (2 * a + b) / (2 * b)

/-- The natural number nearest to `m · 2 ^ q`, a half upwards. -/
def roundScaled (m : Nat) (q : Int) : Nat :=
  if 0 ≤ q then m <<< q.toNat else roundQuotient m (1 <<< (-q).toNat)

end Binary64

/-- The greatest tick a clock can show. -/
def maxTick : Nat := (1 <<< 64) - 1

/-- The tick nearest to `x`, a half upwards, clamped into the range of ticks. What is not a number
is tick 0. -/
def nearestTick (x : Float) : Nat :=
  match Binary64.ofFloat x with
  | .nan => 0
  | .infinite negative => if negative then 0 else maxTick
  | .finite negative m q => if negative then 0 else min (Binary64.roundScaled m q) maxTick

theorem nearestTick_le (x : Float) : nearestTick x ≤ maxTick := by
  unfold nearestTick
  repeat' split
  all_goals first | exact Nat.zero_le _ | exact Nat.le_refl _ | exact Nat.min_le_right _ _

example : nearestTick 2.5 = 3 := by decide

end MidiScore
