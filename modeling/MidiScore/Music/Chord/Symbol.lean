import MidiScore.Music.Chord

/-!
# Chord symbols

A symbol such as `Cmaj7`, `F#min` or `Bb+1` is an upper-case letter, accidentals, a quality and an
octave shift. What follows the accidentals is read as a quality if it is one; otherwise its last
sign splits it into a quality and a signed number of octaves.
-/

namespace MidiScore.Chord

/-- The chord qualities and their semitones above the root. -/
def qualities : List (String × List Int) :=
  [("", [0, 4, 7]),
   ("maj", [0, 4, 7]),
   ("M", [0, 4, 7]),
   ("min", [0, 3, 7]),
   ("m", [0, 3, 7]),
   ("dim", [0, 3, 6]),
   ("aug", [0, 4, 8]),
   ("+", [0, 4, 8]),
   ("7", [0, 4, 7, 10]),
   ("dom7", [0, 4, 7, 10]),
   ("maj7", [0, 4, 7, 11]),
   ("M7", [0, 4, 7, 11]),
   ("min7", [0, 3, 7, 10]),
   ("m7", [0, 3, 7, 10]),
   ("minmaj7", [0, 3, 7, 11]),
   ("mM7", [0, 3, 7, 11]),
   ("dim7", [0, 3, 6, 9]),
   ("m7b5", [0, 3, 6, 10]),
   ("min7b5", [0, 3, 6, 10]),
   ("aug7", [0, 4, 8, 10]),
   ("+7", [0, 4, 8, 10]),
   ("sus2", [0, 2, 7]),
   ("sus4", [0, 5, 7]),
   ("6", [0, 4, 7, 9]),
   ("maj6", [0, 4, 7, 9]),
   ("m6", [0, 3, 7, 9]),
   ("min6", [0, 3, 7, 9]),
   ("9", [0, 4, 7, 10, 14]),
   ("maj9", [0, 4, 7, 11, 14]),
   ("min9", [0, 3, 7, 10, 14]),
   ("m9", [0, 3, 7, 10, 14]),
   ("add9", [0, 4, 7, 14]),
   ("11", [0, 4, 7, 10, 14, 17]),
   ("13", [0, 4, 7, 10, 14, 21])]

/-- The semitones of the quality spelt `s`. -/
def quality? (s : List Char) : Option (List Int) :=
  (qualities.find? (fun q => q.1.toList = s)).map (·.2)

/-- Whether the character is an accidental. -/
def isAccidental (c : Char) : Bool :=
  c = '#' || c = 'b'

/-- The pitch after one accidental. -/
def accidental (p : Pitch) (c : Char) : Pitch :=
  if c = '#' then p.sharp else p.flat

/-- Whether the character is the sign of an octave shift. -/
def isSign (c : Char) : Bool :=
  c = '+' || c = '-'

/-- The number a list of decimal digits spells. -/
def digitsValue (digits : List Char) : Nat :=
  digits.foldl (fun n c => 10 * n + (c.toNat - '0'.toNat)) 0

/-- The octaves spelt by a sign and its digits, of which there must be some. Their number must fit
a signed word of 32 bits. -/
def octaves? (sign : Char) (digits : List Char) : Option Int :=
  if digits.isEmpty || !digits.all Char.isDigit then none
  else
    (Bounded.int? 32 (digitsValue digits)).map fun n => if sign = '-' then -n else n

/-- Splits a text at its last sign: what precedes the sign, the sign, and what follows. -/
def splitLastSign? (s : List Char) : Option (List Char × Char × List Char) :=
  match s.reverse.dropWhile (!isSign ·) with
  | [] => none
  | sign :: before => some (before.reverse, sign, (s.reverse.takeWhile (!isSign ·)).reverse)

/-- The chord that `s`, a quality with or without an octave shift, makes on `root`. -/
def ofSuffix? (root : Pitch) (s : List Char) : Option Chord :=
  match quality? s with
  | some semitones => some (ofIntervals root semitones)
  | none => do
    let (name, sign, digits) ← splitLastSign? s
    let octaves ← octaves? sign digits
    let semitones ← quality? name
    return (ofIntervals root semitones).shiftOctave octaves

/-- The chord a symbol names. -/
def ofSymbol? (symbol : String) : Option Chord :=
  match symbol.toList with
  | [] => none
  | letter :: s => do
    guard letter.isUpper
    let natural ← Pitch.ofLetter? letter
    let root := (s.takeWhile isAccidental).foldl accidental natural
    ofSuffix? root (s.dropWhile isAccidental)

example : ofSymbol? "C+7" = some (ofIntervals (.key 60) [0, 4, 8, 10]) := by decide

example : ofSymbol? "Am-1" = some ((ofIntervals (.key 69) [0, 3, 7]).shiftOctave (-1)) := by decide

end MidiScore.Chord
