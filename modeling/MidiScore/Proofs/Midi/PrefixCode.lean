import MidiScore.Proofs.Midi.TrackData

/-!
# Messages are a prefix code

A message shows where it ends: a voice message has as many data bytes as its status byte asks for,
and a meta event says how many bytes are to follow. A reader that does not know what comes next
therefore stops behind it (`readMessage_encode`), no message is encoded at the start of another, and
messages that were encoded one after the other can be told apart again (`uniquely_decodable`).
-/

namespace MidiScore.Message

open MidiFile

/-- Of some bytes that begin with a message, the message is read and the rest is left. -/
theorem readMessage_encode {m : Message} (h : m.FitsFile) (rest : List UInt8) :
    ∃ running, readMessage 0 none (m.encode ++ rest) = some ⟨⟨0, some m⟩, running, rest⟩ := by
  obtain ⟨hvalid, hmeta⟩ := h
  by_cases hv : m.isVoice
  · obtain ⟨s, data, he, hs⟩ := spells_encode hv hvalid
    rw [masked_of_validate hvalid] at he
    rw [he]
    exact ⟨s, (readMessage_voice hs 0 none rest).1⟩
  · cases m with
    | metaEvent event => exact ⟨none, readMessage_meta (hmeta event rfl) 0 none rest⟩
    | _ => exact absurd rfl hv

/-- Bytes that begin with two messages begin with one message. -/
theorem encode_append_inj {m m' : Message} {rest rest' : List UInt8} (hm : m.FitsFile)
    (hm' : m'.FitsFile) (h : m.encode ++ rest = m'.encode ++ rest') : m = m' ∧ rest = rest' := by
  obtain ⟨running, hread⟩ := readMessage_encode hm rest
  obtain ⟨running', hread'⟩ := readMessage_encode hm' rest'
  rw [h, hread'] at hread
  simp only [Option.some.injEq, Reading.mk.injEq, TrackItem.mk.injEq, true_and] at hread
  obtain ⟨rfl, -, rfl⟩ := hread
  exact ⟨rfl, rfl⟩

theorem eq_of_encode_prefix {m m' : Message} (hm : m.FitsFile) (hm' : m'.FitsFile)
    (h : m.encode <+: m'.encode) : m = m' := by
  obtain ⟨rest, hrest⟩ := h
  rw [← List.append_nil m'.encode] at hrest
  exact (encode_append_inj hm hm' hrest).1

theorem encode_ne_nil (m : Message) : m.encode ≠ [] := by
  cases m <;> simp [encode]

/-- A list of messages is determined by the bytes of all of them. -/
theorem flatMap_encode_inj {ms ms' : List Message} (hms : ∀ m ∈ ms, m.FitsFile)
    (hms' : ∀ m ∈ ms', m.FitsFile) (h : ms.flatMap encode = ms'.flatMap encode) : ms = ms' := by
  induction ms generalizing ms' with
  | nil =>
    cases ms' with
    | nil => rfl
    | cons m' rest' => simp [encode_ne_nil] at h
  | cons m rest ih =>
    cases ms' with
    | nil => simp [encode_ne_nil] at h
    | cons m' rest' =>
      obtain ⟨hm, hrest⟩ := List.forall_mem_cons.1 hms
      obtain ⟨hm', hrest'⟩ := List.forall_mem_cons.1 hms'
      rw [List.flatMap_cons, List.flatMap_cons] at h
      obtain ⟨rfl, hbytes⟩ := encode_append_inj hm hm' h
      rw [ih hrest hrest' hbytes]

/-! ## The bytes of a message -/

/-- The longest message is a time signature. -/
theorem length_encode_le (m : Message) : m.encode.length ≤ 7 := by
  cases m with
  | metaEvent event =>
    have := length_data_le event
    simp only [encode, List.length_cons]
    omega
  | _ => simp [encode]

/-- A voice message is a status byte and data bytes, and these are told apart by their top bit. -/
theorem encode_of_isVoice {m : Message} (hv : m.isVoice) (hm : m.validate = .ok ()) :
    ∃ s data, m.encode = s :: data ∧ 0x80 ≤ s.toNat ∧ ∀ b ∈ data, b.toNat < 0x80 := by
  obtain ⟨s, data, he, hs⟩ := spells_encode hv hm
  rw [masked_of_validate hm] at he
  exact ⟨s, data, he, hs.status_ge, hs.data_lt⟩

/-- The halves of a bend have seven bits each, the low one first. -/
theorem encode_pitchBend {channel value : Nat} (h : (pitchBend channel value).validate = .ok ()) :
    ∃ s low high, (pitchBend channel value).encode = [s, low, high] ∧
      low.toNat + 128 * high.toNat = value := by
  have hvalue := (validate_pitchBend.1 h).1
  unfold bendMax at hvalue
  refine ⟨_, _, _, rfl, ?_⟩
  rw [toNat_data (by omega), toNat_data (by omega)]
  omega

/-- A tempo has three bytes, the highest first. -/
theorem encode_tempo {micros : Nat} (h : micros < 0x1000000) :
    ∃ high mid low, (metaEvent (.tempo micros)).encode = [0xFF, 0x51, 3, high, mid, low] ∧
      65536 * high.toNat + 256 * mid.toNat + low.toNat = micros := by
  refine ⟨_, _, _, rfl, ?_⟩
  simp only [UInt8.toNat_ofNat']
  omega

/-! ## The code -/

/-- Of messages whose numbers are in range: a message has at most eight bytes. A voice message is a
status byte and data bytes below it. A message that is encoded at the start of another is that
other, so that lists of messages are told apart by all their bytes. The halves of a bend and the
bytes of a tempo add up to the number again. -/
theorem uniquely_decodable {m m' : Message} {ms ms' : List Message} (hm : m.FitsFile)
    (hm' : m'.FitsFile) (hms : ∀ a ∈ ms, a.FitsFile) (hms' : ∀ a ∈ ms', a.FitsFile) :
    m.encode.length ≤ 8 ∧
      (m.isVoice → ∃ s data, m.encode = s :: data ∧ 0x80 ≤ s.toNat ∧ ∀ b ∈ data, b.toNat < 0x80) ∧
      (m.encode <+: m'.encode → m = m') ∧
      (ms.flatMap encode = ms'.flatMap encode → ms = ms') ∧
      (∀ channel value, m = pitchBend channel value → ∃ s low high,
        m.encode = [s, low, high] ∧ low.toNat + 128 * high.toNat = value) ∧
      ∀ micros, m = metaEvent (.tempo micros) → ∃ high mid low,
        m.encode = [0xFF, 0x51, 3, high, mid, low] ∧
          65536 * high.toNat + 256 * mid.toNat + low.toNat = micros := by
  refine ⟨?_, fun hv => encode_of_isVoice hv hm.1, eq_of_encode_prefix hm hm',
    flatMap_encode_inj hms hms', ?_, ?_⟩
  · have := m.length_encode_le
    omega
  · rintro channel value rfl
    exact encode_pitchBend hm.1
  · rintro micros rfl
    exact encode_tempo (hm.2 _ rfl)

/-- A bend, and the end of a track ahead of a tempo or behind it. -/
theorem uniquely_decodable_slide :
    let m := pitchBend 3 10000
    let m' := metaEvent (.tempo 500000)
    let ms := [m, metaEvent .endOfTrack, m']
    let ms' := [m, m', metaEvent .endOfTrack]
    m.FitsFile ∧ m'.FitsFile ∧ (∀ a ∈ ms, a.FitsFile) ∧ (∀ a ∈ ms', a.FitsFile) ∧
      ¬ m.encode <+: m'.encode ∧ ms.flatMap encode ≠ ms'.flatMap encode ∧
      (∃ s data, m.encode = s :: data ∧ 0x80 ≤ s.toNat ∧ ∀ b ∈ data, b.toNat < 0x80) ∧
      ∃ s low high, m.encode = [s, low, high] ∧ low.toNat + 128 * high.toNat = 10000 := by
  intro m m' ms ms'
  have hm : m.FitsFile := fitsFile_of_isVoice rfl (by decide)
  have hm' : m'.FitsFile := fitsFile_metaEvent (by decide : 500000 < 0x1000000)
  have hend : (metaEvent .endOfTrack).FitsFile := fitsFile_metaEvent trivial
  have hms : ∀ a ∈ ms, a.FitsFile := by
    simp only [ms, List.forall_mem_cons, List.not_mem_nil, false_implies, implies_true, and_true]
    exact ⟨hm, hend, hm'⟩
  have hms' : ∀ a ∈ ms', a.FitsFile := by
    simp only [ms', List.forall_mem_cons, List.not_mem_nil, false_implies, implies_true, and_true]
    exact ⟨hm, hm', hend⟩
  obtain ⟨-, hvoice, hstart, hlists, hbend, -⟩ := uniquely_decodable hm hm' hms hms'
  refine ⟨hm, hm', hms, hms', ?_, ?_, hvoice rfl, hbend 3 10000 rfl⟩
  · intro h
    exact absurd (hstart h) (by decide)
  · intro h
    exact absurd (hlists h) (by decide)

end MidiScore.Message
