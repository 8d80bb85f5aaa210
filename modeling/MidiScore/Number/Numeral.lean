import MidiScore.Number.Bounded

/-!
# Numerals

A numeral is a sequence of decimal digits, with or without a plus sign in front. It is read from the
left, and reading stops at the first character that is no digit or at which the number outgrows its
word.
-/

namespace MidiScore

/-- Why a text is no numeral. -/
inductive NumeralError where
  | empty
  | digit
  | tooLarge
deriving DecidableEq, Repr

/-- The text of the error. -/
def NumeralError.message : NumeralError → String
  | empty => "cannot parse integer from empty string"
  | digit => "invalid digit found in string"
  | tooLarge => "number too large to fit in target type"

namespace Numeral

/-- The value of a digit. -/
def digit? (c : Char) : Option Nat :=
  if c.isDigit then some (c.toNat - '0'.toNat) else none

/-- Reads digits on behind a number, for a word of `w` bits. -/
def readDigits (w : Nat) (n : Nat) : List Char → Except NumeralError Nat
  | [] => .ok n
  | c :: rest =>
    match digit? c with
    | none => .error .digit
    | some d =>
      match Bounded.nat? w (10 * n + d) with
      | none => .error .tooLarge
      | some n => readDigits w n rest

/-- Reads a numeral for a word of `w` bits. -/
def read (w : Nat) : List Char → Except NumeralError Nat
  | [] => .error .empty
  | ['+'] => .error .digit
  | '+' :: digits => readDigits w 0 digits
  | digits => readDigits w 0 digits

example : read 8 ['+', '0', '0', '7'] = .ok 7 := by rfl

example : read 8 ['2', '5', '6', 'x'] = .error .tooLarge := by rfl

end Numeral

end MidiScore
