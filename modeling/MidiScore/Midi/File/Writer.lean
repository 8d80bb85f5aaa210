import MidiScore.Midi.File.Basic
import MidiScore.Midi.File.Quantity
import MidiScore.Sequence

/-!
# Writing MIDI files

A sequence is written as a file of format 1: a conductor track with the time signature and the
tempo, and then the submitted tracks. Each event is preceded by the ticks since the event before it.
A status byte that repeats the last one of its track is left out; a meta event ends the repetition.
-/

namespace MidiScore

/-- The message with every number cut to the bits that a file has for it. -/
def Message.masked : Message → Message
  | noteOn ch key vel => noteOn (ch % 16) (key % 128) (vel % 128)
  | noteOff ch key vel => noteOff (ch % 16) (key % 128) (vel % 128)
  | controlChange ch num val => controlChange (ch % 16) (num % 128) (val % 128)
  | programChange ch prog => programChange (ch % 16) (prog % 128)
  | pitchBend ch val => pitchBend (ch % 16) (val % 16384)
  | metaEvent event => metaEvent event

namespace MidiFile

/-- The longest gap between two events of a track. -/
def maxGap : Nat := 0x0FFFFFFF

/-- Each message with the ticks since the event before it, where the last event before them was at
tick `last`. -/
def gaps (last : Nat) : List Event → Except FileError (List (Nat × Message))
  | [] => .ok []
  | e :: rest =>
    if e.tick - last ≤ maxGap then do
      return (e.tick - last, e.message) :: (← gaps (max last e.tick) rest)
    else .error (.gapTooLong (e.tick - last))

/-- The bytes of the messages of a track, where `running` is the status byte last written. -/
def trackBytes (running : Option UInt8) : List (Nat × Message) → List UInt8
  | [] => []
  | (gap, m) :: rest =>
    let bytes := m.masked.encode
    let status := if m.isVoice then bytes.head? else none
    let written := if status.isSome && status = running then bytes.tail else bytes
    Quantity7.encode gap ++ written ++ trackBytes status rest

/-- The last `width` bytes of a number, the highest first. -/
def bigEndian (n : Nat) : Nat → List UInt8
  | 0 => []
  | width + 1 => bigEndian (n / 256) width ++ [.ofNat n]

/-- The identifiers of the two kinds of chunk. -/
def headerId : List UInt8 := [0x4D, 0x54, 0x68, 0x64]

def trackId : List UInt8 := [0x4D, 0x54, 0x72, 0x6B]

/-- A chunk: its identifier, its length and its data. -/
def chunk (id data : List UInt8) : List UInt8 :=
  id ++ bigEndian data.length 4 ++ data

/-- The end of a track. -/
def endOfTrack : Nat × Message :=
  (0, .metaEvent .endOfTrack)

/-- The track that holds the time signature and the tempo. -/
def conductor (t : Timing) : List (Nat × Message) :=
  [(0, .metaEvent t.signatureEvent), (0, .metaEvent t.tempoEvent), endOfTrack]

/-- The header of a file of format 1. -/
def header (ppqn tracks : Nat) : List UInt8 :=
  chunk headerId (bigEndian 1 2 ++ bigEndian tracks 2 ++ bigEndian ppqn 2)

/-- The bytes of a file whose tracks list messages after their gaps. -/
def fileBytes (ppqn : Nat) (tracks : List (List (Nat × Message))) : List UInt8 :=
  header ppqn tracks.length ++ tracks.flatMap fun t => chunk trackId (trackBytes none t)

/-- The sequence as a file, unless two events of a track lie too far apart. -/
def write (s : Sequence) : Except FileError (List UInt8) := do
  let tracks ← s.tracks.mapM fun t => gaps 0 t.events
  return fileBytes s.timing.ppqn (conductor s.timing :: tracks.map (· ++ [endOfTrack]))

end MidiFile

end MidiScore
