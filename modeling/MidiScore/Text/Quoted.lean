import MidiScore.Text.DefaultIgnorable
import MidiScore.Text.GraphemeExtend
import MidiScore.Text.Unprintable

/-!
# Quoted text

A text between double quotes. A quote and a backslash are escaped by a backslash, and some control
characters have a short escape as well. Any other character that would not show by itself is written
by its number in hexadecimal. All else is written as it is.
-/

namespace MidiScore.Quoted

/-- The short escape of a character, if it has one. -/
def shortEscape? : Char → Option Char
  | '"' => some '"'
  | '\\' => some '\\'
  | '\n' => some 'n'
  | '\r' => some 'r'
  | '\t' => some 't'
  | '\x00' => some '0'
  | _ => none

/-- The voicing marks of halfwidth katakana, which are letters with a cell of their own. -/
def halfwidthMarks : CharClass := ⟨[(0xFF9E, 0xFF9F)]⟩

/-- Whether a character shows only together with the one before it. -/
def isJoining (c : Char) : Bool :=
  GraphemeExtend.characters.contains c && !halfwidthMarks.contains c

/-- Whether a character shows by itself. -/
def isPlain (c : Char) : Bool :=
  !Unprintable.characters.contains c && !DefaultIgnorable.characters.contains c && !isJoining c

/-- A character as it stands between quotes. -/
def encodeChar (c : Char) : List Char :=
  match shortEscape? c with
  | some e => ['\\', e]
  | none =>
    if isPlain c then [c]
    else ['\\', 'u', '\x7b'] ++ Nat.toDigits 16 c.toNat ++ ['\x7d']

/-- A text between quotes. -/
def encode (s : String) : String :=
  .ofList ('"' :: s.toList.flatMap encodeChar ++ ['"'])

/-- Quoted texts in brackets, with commas between them. -/
def encodeList (texts : List String) : String :=
  "[" ++ ", ".intercalate (texts.map encode) ++ "]"

example : encode "a \"q\"\n" = "\"a \\\"q\\\"\\n\"" := by decide +kernel

example : encode "é" = "\"é\"" ∧ encode "e\u0301" = "\"e\\u\x7b301\x7d\"" := by decide +kernel

example : isPlain '\uff9e' = true ∧ isPlain '\u3164' = false := by decide +kernel

end MidiScore.Quoted
