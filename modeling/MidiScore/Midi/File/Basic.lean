import MidiScore.Midi.Message

/-!
# Songs and file errors

A song is what a MIDI file holds: a resolution and the events of its tracks at absolute ticks.
-/

namespace MidiScore

/-- What a MIDI file says. -/
structure Song where
  ppqn : Nat
  tracks : List (List Event)
deriving DecidableEq, Repr

namespace Song

/-- The meta events of all tracks. -/
def metas (s : Song) : List MetaEvent :=
  s.tracks.flatten.filterMap fun e =>
    match e.message with
    | .metaEvent event => some event
    | _ => none

/-- The first tempo of any track, in microseconds per quarter note. -/
def tempo? (s : Song) : Option Nat :=
  s.metas.findSome? fun
    | .tempo micros => some micros
    | _ => none

/-- The first time signature of any track whose denominator fits a byte. -/
def timeSignature? (s : Song) : Option (Nat × Nat) :=
  s.metas.findSome? fun
    | .timeSignature numerator denominatorLog2 _ _ =>
      if denominatorLog2 < 8 then some (numerator, 1 <<< denominatorLog2) else none
    | _ => none

/-- The channel-voice events of all tracks, merged by tick. -/
def voiceEvents (s : Song) : List Event :=
  (s.tracks.flatten.filter (·.message.isVoice)).mergeSort fun a b => a.tick ≤ b.tick

end Song

/-- Why bytes are no MIDI file. -/
inductive Malformation where
  | notMidi
  | noRiffChunk
  | noRiffForm
  | notRmid
  | noRmidData
  | noHeader
  | badHeader
  | trackBeforeHeader
deriving DecidableEq, Repr

/-- The text of a malformation. -/
def Malformation.message : Malformation → String
  | notMidi => "not a midi file"
  | noRiffChunk => "no main riff chunk"
  | noRiffForm => "failed to read riff formtype"
  | notRmid => "not an rmid riff file"
  | noRmidData => "no rmid data chunk"
  | noHeader => "no midi header chunk"
  | badHeader => "invalid midi header"
  | trackBeforeHeader => "expected header, found track"

/-- Why a file cannot be written or read. -/
inductive FileError where
  /-- A message in the file is out of range. -/
  | value (cause : ValueError)
  /-- The bytes are no MIDI file. -/
  | malformed (reason : Malformation)
  /-- Two events of a track lie too far apart. -/
  | gapTooLong (ticks : Nat)
  /-- The file counts frames of film instead of ticks. -/
  | timecode
  /-- A number of the file outgrew its word. -/
  | overflow
deriving DecidableEq

/-- The text of a file error. -/
def FileError.message : FileError → String
  | value cause => cause.message
  | malformed reason => s!"Malformed MIDI file: invalid midi: {reason.message}"
  | gapTooLong ticks => s!"Gap of {ticks} ticks is too long for a MIDI file"
  | timecode => "SMPTE timecode timing is not supported"
  | overflow => "number out of range"

end MidiScore
