import MidiScore.Midi.File.Basic

/-!
# Chunks of a MIDI file

A file is a list of chunks: a header and then tracks. Chunks of other kinds are passed over, and a
chunk that is cut off ends the list. A file may also come wrapped in the `data` chunk of a RIFF
file.
-/

namespace MidiScore.MidiFile

/-- How a header divides time. -/
inductive Division where
  /-- So many ticks to a quarter note. -/
  | ticks (ppqn : Nat)
  /-- Frames of film. -/
  | timecode
deriving DecidableEq, Repr

/-- A chunk that matters, or one that cannot be read. -/
inductive Chunk where
  | header (division : Division)
  | track (data : List UInt8)
  | broken
  /-- A header whose number of frames outgrows its byte. -/
  | overflow
deriving DecidableEq, Repr

/-- The text as bytes. -/
def ascii (s : String) : List UInt8 :=
  s.toUTF8.toList

/-- The number that bytes spell, the highest first. -/
def ofBigEndian (bs : List UInt8) : Nat :=
  bs.foldl (fun n b => n * 256 + b.toNat) 0

/-- The number that bytes spell, the lowest first. -/
def ofLittleEndian (bs : List UInt8) : Nat :=
  ofBigEndian bs.reverse

/-- The header with the division in two bytes. With the top bit set, the high byte is the negative
of a number of frames per second, of which there are four. That of -128 is no signed byte. -/
def Chunk.ofDivision (high low : UInt8) : Chunk :=
  if high.toNat < 128 then .header (.ticks (high.toNat * 256 + low.toNat))
  else if high.toNat = 128 then .overflow
  else if [24, 25, 29, 30].contains (256 - high.toNat) then .header .timecode
  else .broken

/-- The header in the data of a header chunk: a format from 0 to 2, a number of tracks, which is not
relied on, and a division. -/
def headerOf : List UInt8 → Chunk
  | f₁ :: f₀ :: _ :: _ :: high :: low :: _ =>
    if ofBigEndian [f₁, f₀] ≤ 2 then .ofDivision high low else .broken
  | _ => .broken

/-- Splits off a chunk: its identifier, its data and the rest. A length past the end takes all. -/
def splitChunk? : List UInt8 → Option (List UInt8 × List UInt8 × List UInt8)
  | a :: b :: c :: d :: l₃ :: l₂ :: l₁ :: l₀ :: rest =>
    let length := ofBigEndian [l₃, l₂, l₁, l₀]
    some ([a, b, c, d], rest.take length, rest.drop length)
  | _ => none

theorem length_splitChunk?_lt {bs id data rest : List UInt8}
    (h : splitChunk? bs = some (id, data, rest)) : rest.length < bs.length := by
  unfold splitChunk? at h
  split at h
  · cases h
    simp only [List.length_drop, List.length_cons]
    omega
  · cases h

/-- The chunks that matter, up to the first that cannot be read. -/
def chunks (bs : List UInt8) : List Chunk :=
  if bs.isEmpty then []
  else
    match _ : splitChunk? bs with
    | none => [.broken]
    | some (id, data, rest) =>
      if id = ascii "MThd" then
        match headerOf data with
        | .header division => .header division :: chunks rest
        | unreadable => [unreadable]
      else if id = ascii "MTrk" then .track data :: chunks rest
      else chunks rest
termination_by bs.length
decreasing_by
  all_goals exact length_splitChunk?_lt (by assumption)

/-! ## Wrapped files -/

/-- Splits off a chunk of a RIFF file, whose data is padded to an even length. -/
def splitRiff? : List UInt8 → Option (List UInt8 × List UInt8 × List UInt8)
  | a :: b :: c :: d :: l₀ :: l₁ :: l₂ :: l₃ :: rest =>
    let length := ofLittleEndian [l₀, l₁, l₂, l₃]
    some ([a, b, c, d], rest.take length, rest.drop (length + length % 2))
  | _ => none

theorem length_splitRiff?_lt {bs id data rest : List UInt8}
    (h : splitRiff? bs = some (id, data, rest)) : rest.length < bs.length := by
  unfold splitRiff? at h
  split at h
  · cases h
    simp only [List.length_drop, List.length_cons]
    omega
  · cases h

/-- The data of the first RIFF chunk with an identifier. -/
def riffData? (wanted : List UInt8) (bs : List UInt8) : Option (List UInt8) :=
  match _ : splitRiff? bs with
  | none => none
  | some (id, data, rest) => if id = wanted then some data else riffData? wanted rest
termination_by bs.length
decreasing_by
  exact length_splitRiff?_lt (by assumption)

/-- The file inside a RIFF file. -/
def unwrapRiff (bs : List UInt8) : Except Malformation (List UInt8) :=
  match splitRiff? bs with
  | none => .error .noRiffChunk
  | some (_, data, _) =>
    if data.length < 4 then .error .noRiffForm
    else if data.take 4 ≠ ascii "RMID" then .error .notRmid
    else
      match riffData? (ascii "data") (data.drop 4) with
      | some file => .ok file
      | none => .error .noRmidData

/-- The file itself, taken out of its RIFF file if it comes in one. -/
def unwrap (bs : List UInt8) : Except Malformation (List UInt8) :=
  if bs.take 4 = ascii "RIFF" then unwrapRiff bs
  else if bs.take 4 = ascii "MThd" then .ok bs
  else .error .notMidi

/-- The division and the data of the tracks. The first chunk that matters must be a header; later
headers are passed over, but an overflow in one of them ends the reading all the same. -/
def layout (bs : List UInt8) : Except FileError (Division × List (List UInt8)) :=
  match chunks bs with
  | [] => .error (.malformed .noHeader)
  | .broken :: _ => .error (.malformed .badHeader)
  | .overflow :: _ => .error .overflow
  | .track _ :: _ => .error (.malformed .trackBeforeHeader)
  | .header division :: rest =>
    if rest.contains .overflow then .error .overflow
    else .ok (division, rest.filterMap fun
      | .track data => some data
      | _ => none)

end MidiScore.MidiFile
