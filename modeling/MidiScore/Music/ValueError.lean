import MidiScore.Number.Decimal

/-!
# Refused values

Musical values are checked where they are made. `ValueError` lists why a value is refused, and
`ValueError.message` is the one place that words it.
-/

namespace MidiScore

/-- The direction of a gradual change of dynamic. -/
inductive RampKind where
  | crescendo
  | decrescendo
deriving DecidableEq, Repr

/-- The name of a direction. -/
def RampKind.name : RampKind → String
  | crescendo => "crescendo"
  | decrescendo => "decrescendo"

/-- The numbers a message or a channel carries. -/
inductive Quantity where
  | channel
  | key
  | velocity
  | controller
  | controllerValue
  | program
  | pitchBend
  | replacementChannel
deriving DecidableEq, Repr

/-- The name of a quantity. -/
def Quantity.name : Quantity → String
  | channel => "channel"
  | key => "key"
  | velocity => "velocity"
  | controller => "controller"
  | controllerValue => "controller value"
  | program => "program"
  | pitchBend => "pitch bend"
  | replacementChannel => "replacement track channel"

/-- Why a value is refused. -/
inductive ValueError where
  /-- A tuplet needs a numerator above one and a denominator above zero. -/
  | tuplet (numerator denominator : Nat)
  /-- A time signature needs both numbers. -/
  | timeSignature (numerator denominator : Nat)
  /-- The tempo is zero, or too slow for a tempo message. -/
  | tempo (bpm : Nat)
  /-- The resolution is zero, or too fine for a file header. -/
  | resolution (ppqn : Nat)
  /-- A key number past the 128 keys. -/
  | pitch (number : Int)
  /-- A ramp that ends on the wrong side of its start. -/
  | ramp (kind : RampKind) (start stop : Nat)
  /-- A number out of the range of its quantity. -/
  | range (quantity : Quantity) (value : Nat)
  /-- A duration that is negative or not a number. -/
  | negativeBeat (quarters : Float)
deriving DecidableEq

/-- The text of a refusal. -/
def ValueError.message : ValueError → String
  | tuplet n d => s!"Invalid tuplet {n}:{d}: numerator must be > 1 and denominator > 0"
  | timeSignature n d => s!"Invalid time signature {n}/{d}"
  | tempo bpm => s!"Invalid tempo: {bpm} bpm"
  | resolution ppqn => s!"Invalid PPQN: {ppqn}"
  | pitch n => s!"Pitch out of range: {n}"
  | ramp kind start stop => s!"{kind.name} from velocity {start} to {stop} goes the wrong way"
  | range quantity value => s!"Invalid {quantity.name}: {value}"
  | negativeBeat q => s!"Beat durations cannot be negative: {(Binary64.ofFloat q).text}"

end MidiScore
