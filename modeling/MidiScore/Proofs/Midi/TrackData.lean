import Mathlib.Tactic.Common
import MidiScore.Midi.File.Reader
import MidiScore.Midi.File.Writer
import MidiScore.Proofs.Midi.Quantity

/-!
# The data of a written track

What was written into a track is read back message by message (`readItems_trackBytes`). A voice
message is a status byte and data bytes below 128 that spell it (`Spells`); the reader keeps the
status byte that the writer last wrote, so it finds the message also where the status byte was left
out.
-/

namespace MidiScore

/-- The numbers of a meta event fit the bytes that a file has for them. -/
def MetaEvent.FitsFile : MetaEvent → Prop
  | timeSignature n d c b => n < 256 ∧ d < 256 ∧ c < 256 ∧ b < 256
  | tempo micros => micros < 0x1000000
  | endOfTrack => True

/-- A message that a file holds as it is. -/
def Message.FitsFile (m : Message) : Prop :=
  m.validate = .ok () ∧ ∀ event, m = .metaEvent event → event.FitsFile

namespace Message

theorem fitsFile_of_isVoice {m : Message} (hv : m.isVoice) (hm : m.validate = .ok ()) :
    m.FitsFile := by
  refine ⟨hm, ?_⟩
  rintro event rfl
  cases hv

theorem fitsFile_metaEvent {event : MetaEvent} (h : event.FitsFile) :
    (metaEvent event).FitsFile := by
  refine ⟨rfl, ?_⟩
  rintro _ ⟨⟩
  exact h

theorem toNat_status {kind channel : Nat} (hk : kind < 16) (hc : channel < 16) :
    (status (16 * kind) channel).toNat = 16 * kind + channel := by
  unfold status
  rw [show 16 = 2 ^ 4 from rfl, ← Nat.two_pow_add_eq_or_of_lt hc, UInt8.toNat_ofNat']
  omega

theorem toNat_data {n : Nat} (h : n ≤ 127) : (UInt8.ofNat n).toNat = n := by
  rw [UInt8.toNat_ofNat']
  omega

theorem data_lt {n : Nat} (h : n ≤ 127) : (UInt8.ofNat n).toNat < 0x80 := by
  rw [toNat_data h]
  omega

end Message

namespace MidiFile

open Message

/-- How a voice message stands in a file: a status byte, as many data bytes as it asks for, and the
message that the two spell. -/
structure Spells (s : UInt8) (data : List UInt8) (m : Message) : Prop where
  status_ge : 0x80 ≤ s.toNat
  status_lt : s.toNat < 0xF0
  length : data.length = dataLength s
  data_lt : ∀ b ∈ data, b.toNat < 0x80
  message : voiceMessage? s data = some m

theorem masked_of_validate {m : Message} (hm : m.validate = .ok ()) : m.masked = m := by
  cases m with
  | metaEvent event => rfl
  | _ =>
    simp only [validate, check_bind_eq_ok_iff, check_eq_ok_iff, bendMax] at hm
    simp only [masked, noteOn.injEq, noteOff.injEq, controlChange.injEq, programChange.injEq,
      pitchBend.injEq]
    omega

/-- A status byte falls into the kind of the message and its channel. -/
theorem status_halves (kind : Nat) {channel : Nat} (hk : kind < 16) (hc : channel ≤ 15) :
    (status (16 * kind) channel).toNat / 16 = kind ∧
      (status (16 * kind) channel).toNat % 16 = channel := by
  have := toNat_status hk (Nat.lt_succ_of_le hc)
  omega

theorem spells_status (kind : Nat) {channel : Nat} {data : List UInt8} {m : Message}
    (hk : 8 ≤ kind ∧ kind < 15) (hc : channel ≤ 15)
    (hlength : data.length = if kind = 0xC ∨ kind = 0xD then 1 else 2)
    (hdata : ∀ b ∈ data, b.toNat < 0x80)
    (hm : voiceMessage? (status (16 * kind) channel) data = some m) :
    Spells (status (16 * kind) channel) data m := by
  have hs := toNat_status (show kind < 16 by omega) (Nat.lt_succ_of_le hc)
  refine ⟨by omega, by omega, ?_, hdata, hm⟩
  unfold dataLength
  rw [(status_halves kind (by omega) hc).1]
  exact hlength

theorem spells_encode {m : Message} (hv : m.isVoice) (hm : m.validate = .ok ()) :
    ∃ s data, m.masked.encode = s :: data ∧ Spells s data m := by
  rw [masked_of_validate hm]
  cases m with
  | noteOff ch key vel =>
    simp only [validate, check_bind_eq_ok_iff, check_eq_ok_iff] at hm
    obtain ⟨hc, hk, hvel⟩ := hm
    obtain ⟨hkind, hch⟩ := status_halves 8 (by decide) hc
    refine ⟨_, _, rfl, spells_status 8 (by decide) hc rfl ?_ ?_⟩
    · exact List.forall_mem_cons.2 ⟨data_lt hk, List.forall_mem_singleton.2 (data_lt hvel)⟩
    · simp only [voiceMessage?, hkind, hch, toNat_data hk, toNat_data hvel]
  | noteOn ch key vel =>
    simp only [validate, check_bind_eq_ok_iff, check_eq_ok_iff] at hm
    obtain ⟨hc, hk, hvel⟩ := hm
    obtain ⟨hkind, hch⟩ := status_halves 9 (by decide) hc
    refine ⟨_, _, rfl, spells_status 9 (by decide) hc rfl ?_ ?_⟩
    · exact List.forall_mem_cons.2 ⟨data_lt hk, List.forall_mem_singleton.2 (data_lt hvel)⟩
    · simp only [voiceMessage?, hkind, hch, toNat_data hk, toNat_data hvel]
  | controlChange ch num val =>
    simp only [validate, check_bind_eq_ok_iff, check_eq_ok_iff] at hm
    obtain ⟨hc, hn, hval⟩ := hm
    obtain ⟨hkind, hch⟩ := status_halves 0xB (by decide) hc
    refine ⟨_, _, rfl, spells_status 0xB (by decide) hc rfl ?_ ?_⟩
    · exact List.forall_mem_cons.2 ⟨data_lt hn, List.forall_mem_singleton.2 (data_lt hval)⟩
    · simp only [voiceMessage?, hkind, hch, toNat_data hn, toNat_data hval]
  | programChange ch prog =>
    simp only [validate, check_bind_eq_ok_iff, check_eq_ok_iff] at hm
    obtain ⟨hc, hp⟩ := hm
    obtain ⟨hkind, hch⟩ := status_halves 0xC (by decide) hc
    refine ⟨_, _, rfl, spells_status 0xC (by decide) hc rfl ?_ ?_⟩
    · exact List.forall_mem_singleton.2 (data_lt hp)
    · simp only [voiceMessage?, hkind, hch, toNat_data hp]
  | pitchBend ch val =>
    simp only [validate, check_bind_eq_ok_iff, check_eq_ok_iff, bendMax] at hm
    obtain ⟨hval, hc⟩ := hm
    obtain ⟨hkind, hch⟩ := status_halves 0xE (by decide) hc
    have hlow : val % 128 ≤ 127 := by omega
    have hhigh : val / 128 ≤ 127 := by omega
    refine ⟨_, _, rfl, spells_status 0xE (by decide) hc rfl ?_ ?_⟩
    · exact List.forall_mem_cons.2 ⟨data_lt hlow, List.forall_mem_singleton.2 (data_lt hhigh)⟩
    · simp only [voiceMessage?, hkind, hch, toNat_data hlow, toNat_data hhigh, Nat.mod_add_div]
  | metaEvent event => cases hv

theorem readVoice_of_spells {s : UInt8} {data : List UInt8} {m : Message} (h : Spells s data m)
    (rest : List UInt8) : readVoice s (data ++ rest) = some (some m, rest) := by
  have htake : (data ++ rest).take (dataLength s) = data := List.take_left' h.length
  have hdrop : (data ++ rest).drop (dataLength s) = rest := List.drop_left' h.length
  unfold readVoice
  simp only [htake, hdrop]
  rw [if_pos ⟨h.length, by simpa using h.data_lt⟩, h.message]

/-- A voice message is read back after its status byte, or without it if the status byte repeats. -/
theorem readMessage_voice {s : UInt8} {data : List UInt8} {m : Message} (h : Spells s data m)
    (gap : Nat) (running : Option UInt8) (rest : List UInt8) :
    readMessage gap running (s :: data ++ rest) = some ⟨⟨gap, some m⟩, s, rest⟩ ∧
      readMessage gap (some s) (data ++ rest) = some ⟨⟨gap, some m⟩, s, rest⟩ := by
  have hread := readVoice_of_spells h rest
  constructor
  · rw [List.cons_append]
    simp only [readMessage]
    rw [if_neg (by have := h.status_ge; omega), if_pos h.status_lt, hread]
    rfl
  · have hpos : 0 < dataLength s := by
      unfold dataLength
      split <;> decide
    obtain ⟨b, bs, rfl⟩ := List.exists_cons_of_length_pos (h.length ▸ hpos)
    rw [List.cons_append] at hread ⊢
    simp only [readMessage]
    rw [if_pos (h.data_lt b List.mem_cons_self)]
    simp only [Option.bind_eq_bind, Option.bind_some, hread]
    rfl

theorem metaEvent?_data {event : MetaEvent} (h : event.FitsFile) :
    metaEvent? (.ofNat event.subtype) event.data = some event := by
  cases event with
  | timeSignature n d c b =>
    obtain ⟨hn, hd, hc, hb⟩ := h
    simp [metaEvent?, MetaEvent.data, MetaEvent.subtype, Nat.mod_eq_of_lt, hn, hd, hc, hb]
  | tempo micros =>
    have hlt : micros < 0x1000000 := h
    simp only [metaEvent?, MetaEvent.data, MetaEvent.subtype, ofBigEndian, List.foldl_cons,
      List.foldl_nil, UInt8.toNat_ofNat']
    congr 2
    omega
  | endOfTrack => rfl

theorem acceptsMeta_data (event : MetaEvent) :
    acceptsMeta (.ofNat event.subtype) event.data = true := by
  cases event <;> rfl

theorem length_data_le (event : MetaEvent) : event.data.length ≤ 4 := by
  cases event <;> simp [MetaEvent.data]

theorem readMeta_data {event : MetaEvent} (h : event.FitsFile) (rest : List UInt8) :
    readMeta (.ofNat event.subtype :: .ofNat event.data.length :: event.data ++ rest) =
      some (some (.metaEvent event), rest) := by
  have hlength : (UInt8.ofNat event.data.length).toNat = event.data.length :=
    toNat_data (Nat.le_trans (length_data_le event) (by decide))
  have hdecode := Quantity7.decode_byte
    (data_lt (Nat.le_trans (length_data_le event) (by decide))) (event.data ++ rest)
  simp only [List.cons_append, readMeta, hdecode, hlength, List.take_left, List.drop_left,
    acceptsMeta_data, metaEvent?_data h, if_true, Option.map_some]

/-- A meta event is read back, and ends the repetition of status bytes. -/
theorem readMessage_meta {event : MetaEvent} (h : event.FitsFile) (gap : Nat)
    (running : Option UInt8) (rest : List UInt8) :
    readMessage gap running ((Message.metaEvent event).masked.encode ++ rest) =
      some ⟨⟨gap, some (.metaEvent event)⟩, none, rest⟩ := by
  have hread := readMeta_data h rest
  have hff : (0xFF : UInt8).toNat = 0xFF := rfl
  simp only [masked, encode, List.cons_append, readMessage, hff] at hread ⊢
  rw [if_neg (by decide), if_neg (by decide), if_pos trivial, hread]
  rfl

/-- What a song keeps of written messages. -/
def itemsOf (ms : List (Nat × Message)) : List TrackItem :=
  ms.map fun (gap, m) => ⟨gap, some m⟩

theorem readItems_of_readItem {running : Option UInt8} {bs : List UInt8} {r : Reading}
    (h : readItem running bs = some r) (hbs : bs ≠ []) :
    readItems running bs = r.item :: readItems r.running r.rest := by
  rw [readItems, if_neg (by simpa using hbs)]
  split
  · next hr => rw [hr] at h; cases h
  · next hr => rw [hr] at h; cases h; rfl

/-- The data of a track are read back message by message. The reader remembers the status byte that
the writer last wrote. -/
theorem readItems_trackBytes {ms : List (Nat × Message)}
    (h : ∀ p ∈ ms, p.1 ≤ maxGap ∧ p.2.FitsFile) (running : Option UInt8) :
    readItems running (trackBytes running ms) = itemsOf ms := by
  induction ms generalizing running with
  | nil =>
    rw [readItems]
    rfl
  | cons p rest ih =>
    obtain ⟨gap, m⟩ := p
    obtain ⟨hgap, hm, hmeta⟩ := h _ List.mem_cons_self
    replace ih := ih fun p hp => h p (List.mem_cons_of_mem _ hp)
    -- whatever is written after the gap, it is enough that the reader finds the message there
    have hitem : ∀ written status,
        readMessage gap running (written ++ trackBytes status rest) =
          some ⟨⟨gap, some m⟩, status, trackBytes status rest⟩ →
        readItems running (Quantity7.encode gap ++ written ++ trackBytes status rest) =
          itemsOf ((gap, m) :: rest) := by
      intro written status hread
      have hfirst : readItem running (Quantity7.encode gap ++ (written ++ trackBytes status rest)) =
          some ⟨⟨gap, some m⟩, status, trackBytes status rest⟩ := by
        unfold readItem
        rw [Quantity7.decode_encode hgap]
        exact hread
      rw [List.append_assoc, readItems_of_readItem hfirst (by simp [Quantity7.encode_ne_nil]), ih]
      rfl
    unfold trackBytes
    refine hitem _ _ ?_
    by_cases hv : m.isVoice
    · obtain ⟨s, data, he, hs⟩ := spells_encode hv hm
      rw [he]
      simp only [hv, if_true, List.head?_cons, Option.isSome_some, Bool.true_and, List.tail_cons]
      obtain ⟨hnew, hagain⟩ := readMessage_voice hs gap running (trackBytes (some s) rest)
      by_cases hr : some s = running
      · rw [if_pos (by simpa using hr), ← hr]
        exact hagain
      · rw [if_neg (by simpa using hr)]
        exact hnew
    · cases m with
      | metaEvent event => exact readMessage_meta (hmeta event rfl) gap running _
      | _ => exact absurd rfl hv

end MidiFile

end MidiScore
