import MidiScore.Midi.File.Chunk
import MidiScore.Midi.File.Quantity

/-!
# Reading MIDI files

The data of a track is read event by event until it is used up or something is wrong with it; what
was read before stands. Messages that a song does not keep still take their time: each kept event is
at the sum of all gaps up to and including its own.
-/

namespace MidiScore.MidiFile

/-- An event of a track: the ticks since the event before it, and its message if a song keeps it. -/
structure TrackItem where
  gap : Nat
  message : Option Message
deriving DecidableEq, Repr

/-- The number of data bytes of a voice message. -/
def dataLength (status : UInt8) : Nat :=
  if status.toNat / 16 = 0xC ∨ status.toNat / 16 = 0xD then 1 else 2

/-- The voice message with a status byte and data bytes, if a song keeps it. -/
def voiceMessage? (status : UInt8) (data : List UInt8) : Option Message :=
  let channel := status.toNat % 16
  match status.toNat / 16, data with
  | 0x8, [key, vel] => some (.noteOff channel key.toNat vel.toNat)
  | 0x9, [key, vel] => some (.noteOn channel key.toNat vel.toNat)
  | 0xB, [num, val] => some (.controlChange channel num.toNat val.toNat)
  | 0xC, [prog] => some (.programChange channel prog.toNat)
  | 0xE, [low, high] => some (.pitchBend channel (low.toNat + 128 * high.toNat))
  | _, _ => none

/-- Reads the data bytes of a voice message. All of them must be there and below 128. -/
def readVoice (status : UInt8) (bs : List UInt8) : Option (Option Message × List UInt8) :=
  let data := bs.take (dataLength status)
  if data.length = dataLength status ∧ data.all (·.toNat < 128) then
    some (voiceMessage? status data, bs.drop (dataLength status))
  else none

/-- The frames per second of a film offset, by the two bits that spell them. -/
def frameRate (hour : Nat) : Nat :=
  match hour / 32 % 4 with
  | 0 => 24
  | 1 => 25
  | 2 => 29
  | _ => 30

/-- Whether the bytes of a film offset are in their ranges. -/
def isFilmOffset (hour minute second frame subframe : Nat) : Bool :=
  hour % 32 < 24 ∧ minute < 60 ∧ second < 60 ∧ frame < frameRate hour ∧ subframe < 100

/-- Whether the data of a meta event are such that reading goes on. -/
def acceptsMeta (type : UInt8) (data : List UInt8) : Bool :=
  match type.toNat, data with
  | 0x59, data => 2 ≤ data.length
  | 0x54, hour :: minute :: second :: frame :: subframe :: _ =>
    isFilmOffset hour.toNat minute.toNat second.toNat frame.toNat subframe.toNat
  | _, _ => true

/-- The meta event with a type and data, if a song keeps it. -/
def metaEvent? (type : UInt8) (data : List UInt8) : Option MetaEvent :=
  match type.toNat, data with
  | 0x51, high :: mid :: low :: _ =>
    some (.tempo (ofBigEndian [high, mid, low]))
  | 0x58, n :: d :: c :: b :: _ => some (.timeSignature n.toNat d.toNat c.toNat b.toNat)
  | 0x2F, _ => some .endOfTrack
  | _, _ => none

/-- Reads the type, the length and the data of a meta event. -/
def readMeta : List UInt8 → Option (Option Message × List UInt8)
  | [] => none
  | type :: bs =>
    let (length, bs) := Quantity7.decode bs
    let data := bs.take length
    if acceptsMeta type data then
      some ((metaEvent? type data).map .metaEvent, bs.drop length)
    else none

/-- What was read of a track: an event, the status byte that may be left out next, and the rest. -/
structure Reading where
  item : TrackItem
  running : Option UInt8
  rest : List UInt8

/-- Reads an event after its gap. -/
def readMessage (gap : Nat) (running : Option UInt8) (bs : List UInt8) : Option Reading :=
  match bs with
  | [] => none
  | b :: tail =>
    if b.toNat < 0x80 then do
      let status ← running
      let (message, rest) ← readVoice status bs
      return ⟨⟨gap, message⟩, status, rest⟩
    else if b.toNat < 0xF0 then do
      let (message, rest) ← readVoice b tail
      return ⟨⟨gap, message⟩, b, rest⟩
    else if b.toNat = 0xFF then do
      let (message, rest) ← readMeta tail
      return ⟨⟨gap, message⟩, none, rest⟩
    else if b.toNat = 0xF0 ∨ b.toNat = 0xF7 then
      let (length, rest) := Quantity7.decode tail
      some ⟨⟨gap, none⟩, none, rest.drop length⟩
    else none

/-- Reads an event. -/
def readItem (running : Option UInt8) (bs : List UInt8) : Option Reading :=
  readMessage (Quantity7.decode bs).1 running (Quantity7.decode bs).2

theorem length_readVoice_lt {status : UInt8} {bs rest : List UInt8} {m : Option Message}
    (h : readVoice status bs = some (m, rest)) : rest.length < bs.length := by
  simp only [readVoice] at h
  split at h
  · next hd =>
    cases h
    have hpos : 0 < dataLength status := by
      unfold dataLength
      split <;> omega
    have := hd.1
    simp only [List.length_take, List.length_drop] at this ⊢
    omega
  · cases h

theorem length_readMeta_le {bs rest : List UInt8} {m : Option Message}
    (h : readMeta bs = some (m, rest)) : rest.length ≤ bs.length := by
  cases bs with
  | nil => cases h
  | cons type bs =>
    simp only [readMeta] at h
    split at h
    · cases h
      have := Quantity7.length_decode_le bs
      simp only [List.length_drop, List.length_cons]
      omega
    · cases h

theorem length_readMessage_lt {gap : Nat} {running : Option UInt8} {bs : List UInt8} {r : Reading}
    (h : readMessage gap running bs = some r) : r.rest.length < bs.length := by
  cases bs with
  | nil => cases h
  | cons b tail =>
    simp only [readMessage] at h
    split at h
    · simp only [Option.bind_eq_bind, Option.bind_eq_some_iff, Option.pure_def,
        Option.some.injEq] at h
      obtain ⟨status, -, ⟨message, rest⟩, hv, rfl⟩ := h
      exact length_readVoice_lt hv
    split at h
    · simp only [Option.bind_eq_bind, Option.bind_eq_some_iff, Option.pure_def,
        Option.some.injEq] at h
      obtain ⟨⟨message, rest⟩, hv, rfl⟩ := h
      have := length_readVoice_lt hv
      simp only [List.length_cons]
      omega
    split at h
    · simp only [Option.bind_eq_bind, Option.bind_eq_some_iff, Option.pure_def,
        Option.some.injEq] at h
      obtain ⟨⟨message, rest⟩, hm, rfl⟩ := h
      have := length_readMeta_le hm
      simp only [List.length_cons]
      omega
    split at h
    · cases h
      have := Quantity7.length_decode_le tail
      simp only [List.length_drop, List.length_cons]
      omega
    · cases h

theorem length_readItem_lt {running : Option UInt8} {bs : List UInt8} {r : Reading}
    (h : readItem running bs = some r) : r.rest.length < bs.length :=
  Nat.lt_of_lt_of_le (length_readMessage_lt h) (Quantity7.length_decode_le bs)

/-- The events of a track, up to the first that cannot be read. -/
def readItems (running : Option UInt8) (bs : List UInt8) : List TrackItem :=
  if bs.isEmpty then []
  else
    match _ : readItem running bs with
    | none => []
    | some r => r.item :: readItems r.running r.rest
termination_by bs.length
decreasing_by
  exact length_readItem_lt (by assumption)

/-- The kept events at their ticks, where the events before them end at tick `now`. A song holds no
message that an instrument would not accept. -/
def placeItems (now : Nat) : List TrackItem → Except ValueError (List Event)
  | [] => .ok []
  | item :: rest => do
    let tick := now + item.gap
    match item.message with
    | none => placeItems tick rest
    | some m =>
      let m ← m.checked
      return ⟨tick, m⟩ :: (← placeItems tick rest)

/-- The events of the data of a track. -/
def readTrack (data : List UInt8) : Except ValueError (List Event) :=
  placeItems 0 (readItems none data)

/-- The song in a file. -/
def read (bs : List UInt8) : Except FileError Song := do
  let file ← (unwrap bs).mapError .malformed
  let (division, tracks) ← layout file
  match division with
  | .timecode => throw .timecode
  | .ticks ppqn => return { ppqn, tracks := ← (tracks.mapM readTrack).mapError .value }

end MidiScore.MidiFile
