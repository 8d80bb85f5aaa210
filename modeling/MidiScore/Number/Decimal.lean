import MidiScore.Number.Binary64

/-!
# Shortest decimals

The text of a floating-point number is the shortest decimal that reads back as the number, and of
the shortest ones the nearest, written positionally: no exponent, and no point on whole numbers.
-/

namespace MidiScore

/-- The decimal number `digits · 10 ^ exponent`. -/
structure Decimal where
  digits : Nat
  exponent : Int
deriving DecidableEq, Repr

namespace Decimal

/-- The power of ten with `k` zeros. -/
def tens (k : Nat) : Nat :=
  Nat.pow 10 k

/-- The positive rational `num / den` with the ends of the interval that rounds to it, all over
the one denominator. The ends belong to the interval if `closed`. -/
structure Interval where
  low : Nat
  value : Nat
  high : Nat
  den : Nat
  closed : Bool

/-- The numbers that round to `m · 2 ^ q`. Below a power of two the neighbours lie closer. -/
def Interval.ofScaled (m : Nat) (q : Int) : Interval :=
  let below := if m = 1 <<< 52 ∧ -1074 < q then 1 else 2
  let scale := if 0 ≤ q then 1 <<< q.toNat else 1
  let den := if 0 ≤ q then 4 else 4 <<< (-q).toNat
  { low := (4 * m - below) * scale
    value := 4 * m * scale
    high := (4 * m + 2) * scale
    den := den
    closed := m % 2 = 0 }

/-- Whether `n · 10 ^ e` lies in the interval. -/
def Interval.contains (i : Interval) (n : Nat) (e : Int) : Bool :=
  let x := n * tens e.toNat * i.den
  let unit := tens (-e).toNat
  if i.closed then i.low * unit ≤ x ∧ x ≤ i.high * unit
  else i.low * unit < x ∧ x < i.high * unit

/-- The exponent `k` with `10 ^ k ≤ value < 10 ^ (k + 1)`. -/
def Interval.leading (i : Interval) : Int :=
  if i.den ≤ i.value then ((Nat.toDigits 10 (i.value / i.den)).length : Int) - 1
  else
    match (List.range 400).find? (fun k => i.den ≤ i.value * tens k) with
    | some k => -(k : Int)
    | none => 0

/-- The nearer of the value's two neighbours among the multiples of `10 ^ e` that lies in the
interval. Of two equally near ones it is the greater. -/
def Interval.onGrid (i : Interval) (e : Int) : Option Decimal :=
  let num := i.value * tens (-e).toNat
  let den := i.den * tens e.toNat
  let floor := num / den
  let rest := num % den
  let nearFirst := if 2 * rest < den then [floor, floor + 1] else [floor + 1, floor]
  (nearFirst.find? (i.contains · e)).map fun n => ⟨n, e⟩

/-- The shortest decimal in the interval. Seventeen digits always suffice. -/
def Interval.shortest (i : Interval) : Decimal :=
  let k := i.leading
  match (List.range 17).findSome? (fun (n : Nat) => i.onGrid (k - n)) with
  | some d => d
  | none => ⟨0, 0⟩

/-- The shortest decimal that reads back as `m · 2 ^ q`. -/
def shortest (m : Nat) (q : Int) : Decimal :=
  if m = 0 then ⟨0, 0⟩ else (Interval.ofScaled m q).shortest

/-- The same number without trailing zeros after the point. -/
def trim (d : Decimal) : Decimal :=
  go d.digits d.exponent (-d.exponent).toNat
where
  /-- Drops at most `n` trailing zeros. -/
  go (digits : Nat) (exponent : Int) : Nat → Decimal
    | 0 => ⟨digits, exponent⟩
    | n + 1 =>
      if digits % 10 = 0 then go (digits / 10) (exponent + 1) n else ⟨digits, exponent⟩

/-- The positional text of a decimal. -/
def text (d : Decimal) : String :=
  let d := d.trim
  let digits := Nat.toDigits 10 d.digits
  if 0 ≤ d.exponent then
    String.ofList (if d.digits = 0 then digits else digits ++ List.replicate d.exponent.toNat '0')
  else
    let places := (-d.exponent).toNat
    let padded := List.replicate (places + 1 - digits.length) '0' ++ digits
    let whole := padded.length - places
    String.ofList (padded.take whole ++ '.' :: padded.drop whole)

end Decimal

/-- The positional text of a floating-point number. -/
def Binary64.text : Binary64 → String
  | nan => "NaN"
  | infinite negative => if negative then "-inf" else "inf"
  | finite negative m q => (if negative then "-" else "") ++ (Decimal.shortest m q).text

end MidiScore
