import Mathlib.Tactic.Common
import MidiScore.Number.Total
import MidiScore.Proofs.Midi.Chunks
import MidiScore.Proofs.Midi.RoundTrip
import MidiScore.Proofs.Midi.TrackData

/-!
# Reading any bytes

Whatever the bytes, the messages that are read out of a track fit a file
(`fitsFile_of_mem_readItems`): data bytes are below 128 and a tempo has three of them. So no message
is refused when it is placed, and a track is its kept events, each at the sum of the gaps up to its
own (`placeItems_eq`). What remains are files that are malformed or count frames, and one kind of
header at which reading stops: that whose division would be the negative of the least signed byte
(`read_outcome`).
-/

namespace MidiScore.MidiFile

/-! ## Messages -/

theorem fitsFile_voiceMessage {status : UInt8} {data : List UInt8} {m : Message}
    (hdata : ∀ b ∈ data, b.toNat < 128) (h : voiceMessage? status data = some m) : m.FitsFile := by
  have hchannel : status.toNat % 16 ≤ 15 := by omega
  unfold voiceMessage? at h
  dsimp only at h
  split at h
  all_goals try cases h
  all_goals
    refine Message.fitsFile_of_isVoice rfl ?_
    simp only [List.forall_mem_cons] at hdata
    simp only [Message.validate, Message.check_bind_eq_ok_iff, Message.check_eq_ok_iff, bendMax]
    omega

theorem fitsFile_of_readVoice {status : UInt8} {bs rest : List UInt8} {m : Message}
    (h : readVoice status bs = some (some m, rest)) : m.FitsFile := by
  unfold readVoice at h
  dsimp only at h
  split at h
  · next hd =>
    rw [Option.some.injEq, Prod.mk.injEq] at h
    exact fitsFile_voiceMessage (by simpa using hd.2) h.1
  · cases h

theorem fitsFile_metaEvent? {type : UInt8} {data : List UInt8} {event : MetaEvent}
    (h : metaEvent? type data = some event) : event.FitsFile := by
  unfold metaEvent? at h
  split at h
  · next high mid low _ _ =>
    cases h
    have := high.toNat_lt
    have := mid.toNat_lt
    have := low.toNat_lt
    simp only [MetaEvent.FitsFile, ofBigEndian, List.foldl_cons, List.foldl_nil]
    omega
  · cases h
    exact ⟨UInt8.toNat_lt _, UInt8.toNat_lt _, UInt8.toNat_lt _, UInt8.toNat_lt _⟩
  · cases h
    trivial
  · cases h

theorem fitsFile_of_readMeta {bs rest : List UInt8} {m : Message}
    (h : readMeta bs = some (some m, rest)) : m.FitsFile := by
  cases bs with
  | nil => cases h
  | cons type bs =>
    simp only [readMeta] at h
    split at h
    · rw [Option.some.injEq, Prod.mk.injEq] at h
      obtain ⟨event, hevent, rfl⟩ := Option.map_eq_some_iff.1 h.1
      exact Message.fitsFile_metaEvent (fitsFile_metaEvent? hevent)
    · cases h

theorem fitsFile_of_readMessage {gap : Nat} {running : Option UInt8} {bs : List UInt8} {r : Reading}
    {m : Message} (h : readMessage gap running bs = some r) (hm : r.item.message = some m) :
    m.FitsFile := by
  cases bs with
  | nil => cases h
  | cons b tail =>
    simp only [readMessage] at h
    split at h
    · simp only [Option.bind_eq_bind, Option.bind_eq_some_iff, Option.pure_def,
        Option.some.injEq] at h
      obtain ⟨status, -, ⟨message, rest⟩, hv, rfl⟩ := h
      obtain rfl : message = some m := hm
      exact fitsFile_of_readVoice hv
    split at h
    · simp only [Option.bind_eq_bind, Option.bind_eq_some_iff, Option.pure_def,
        Option.some.injEq] at h
      obtain ⟨⟨message, rest⟩, hv, rfl⟩ := h
      obtain rfl : message = some m := hm
      exact fitsFile_of_readVoice hv
    split at h
    · simp only [Option.bind_eq_bind, Option.bind_eq_some_iff, Option.pure_def,
        Option.some.injEq] at h
      obtain ⟨⟨message, rest⟩, hv, rfl⟩ := h
      obtain rfl : message = some m := hm
      exact fitsFile_of_readMeta hv
    split at h
    · cases h
      cases hm
    · cases h

/-- Whatever the data of a track, the messages in it fit a file. -/
theorem fitsFile_of_mem_readItems {running : Option UInt8} {data : List UInt8} {item : TrackItem}
    {m : Message} (h : item ∈ readItems running data) (hm : item.message = some m) :
    m.FitsFile := by
  fun_induction readItems running data with
  | case1 => cases h
  | case2 => cases h
  | case3 running data _ r hr ih =>
    rcases List.mem_cons.1 h with rfl | h
    · exact fitsFile_of_readMessage hr hm
    · exact ih h

/-! ## Ticks -/

/-- The tick of the item at an index: the sum of all gaps up to and including its own. -/
def tickAt (items : List TrackItem) (i : Nat) : Nat :=
  total ((items.take (i + 1)).map (·.gap))

/-- The events of the items that a song keeps. -/
def keptEvents (items : List TrackItem) : List Event :=
  items.zipIdx.filterMap fun (item, i) => item.message.map fun m => ⟨tickAt items i, m⟩

theorem tickAt_mono (items : List TrackItem) {i j : Nat} (h : i ≤ j) :
    tickAt items i ≤ tickAt items j := by
  obtain ⟨later, hlater⟩ := List.take_prefix_take_left (l := items) (Nat.add_le_add_right h 1)
  unfold tickAt
  rw [← hlater, List.map_append, total_append]
  exact Nat.le_add_right ..

theorem pairwise_keptEvents (items : List TrackItem) :
    (keptEvents items).Pairwise fun a b => a.tick ≤ b.tick := by
  have hindices : items.zipIdx.Pairwise fun p q => p.2 < q.2 := by
    rw [← List.pairwise_map, List.zipIdx_map_snd]
    exact List.pairwise_lt_range'
  refine List.pairwise_filterMap.2 (hindices.imp fun {p q} hlt e he e' he' => ?_)
  obtain ⟨_, -, rfl⟩ := Option.map_eq_some_iff.1 he
  obtain ⟨_, -, rfl⟩ := Option.map_eq_some_iff.1 he'
  exact tickAt_mono items (Nat.le_of_lt hlt)

/-- Items that can be sent are placed at the sums of the gaps. -/
theorem placeItems_eq {items : List TrackItem}
    (h : ∀ item ∈ items, ∀ m ∈ item.message, m.validate = .ok ()) :
    placeItems 0 items = .ok (keptEvents items) := by
  -- the items that were passed are kept, so that the sums are those of the whole track
  suffices hrest : ∀ before rest, items = before ++ rest →
      placeItems (total (before.map (·.gap))) rest =
        .ok ((rest.zipIdx before.length).filterMap fun (item, i) =>
          item.message.map fun m => ⟨tickAt items i, m⟩) from hrest [] items rfl
  intro before rest hitems
  induction rest generalizing before with
  | nil => rfl
  | cons item rest ih =>
    have hpassed : items = (before ++ [item]) ++ rest := by rw [hitems, List.append_cons]
    have htick : tickAt items before.length = total (before.map (·.gap)) + item.gap := by
      unfold tickAt
      rw [hpassed, List.take_left' (by simp), List.map_append, total_append]
      simp [total]
    have hplaced := ih (before ++ [item]) hpassed
    rw [List.map_append, total_append, List.length_append] at hplaced
    have hnow : total (before.map (·.gap)) + total ([item].map (·.gap)) =
        total (before.map (·.gap)) + item.gap := by simp [total]
    rw [hnow] at hplaced
    rw [List.zipIdx_cons]
    unfold placeItems
    dsimp only
    cases hm : item.message with
    | none =>
      rw [List.filterMap_cons_none (by rw [hm]; rfl)]
      exact hplaced
    | some m =>
      have hchecked : m.checked = .ok m := by
        have hvalid := h item (by simp [hitems]) m hm
        unfold Message.checked
        rw [hvalid]
        rfl
      rw [List.filterMap_cons_some (by rw [hm]; rfl)]
      dsimp only
      rw [hchecked, hplaced, htick]
      rfl

/-- No message of a track is refused. -/
theorem readTrack_eq (data : List UInt8) :
    readTrack data = .ok (keptEvents (readItems none data)) :=
  placeItems_eq fun _ hitem _ hm => (fitsFile_of_mem_readItems hitem hm).1

/-! ## Chunks -/

/-- The file holds a chunk with the identifier and the data. -/
inductive Holds : List UInt8 → List UInt8 → List UInt8 → Prop where
  | first {bs id data rest : List UInt8} (h : splitChunk? bs = some (id, data, rest)) :
      Holds bs id data
  | later {bs id data id' data' rest : List UInt8} (h : splitChunk? bs = some (id', data', rest))
      (hrest : Holds rest id data) : Holds bs id data

/-- A chunk that was read is a header if it says anything but the data of a track. -/
theorem holds_of_mem_chunks {bs : List UInt8} {c : Chunk} (h : c ∈ chunks bs) :
    c = .broken ∨ (∃ data, c = .track data) ∨
      ∃ data, Holds bs (ascii "MThd") data ∧ headerOf data = c := by
  have hlater : ∀ {bs id data rest : List UInt8}, splitChunk? bs = some (id, data, rest) →
      (c = .broken ∨ (∃ data, c = .track data) ∨
        ∃ data, Holds rest (ascii "MThd") data ∧ headerOf data = c) →
      c = .broken ∨ (∃ data, c = .track data) ∨
        ∃ data, Holds bs (ascii "MThd") data ∧ headerOf data = c := by
    rintro _ _ _ _ hsplit (hc | hc | ⟨data, hdata, hc⟩)
    · exact .inl hc
    · exact .inr (.inl hc)
    · exact .inr (.inr ⟨data, .later hsplit hdata, hc⟩)
  fun_induction chunks bs with
  | case1 => cases h
  | case2 => exact .inl (List.mem_singleton.1 h)
  | case3 bs _ data rest division hheader hsplit ih =>
    rcases List.mem_cons.1 h with rfl | h
    · exact .inr (.inr ⟨data, .first hsplit, hheader⟩)
    · exact hlater hsplit (ih h)
  | case4 bs _ data rest hsplit _ =>
    obtain rfl := List.mem_singleton.1 h
    exact .inr (.inr ⟨data, .first hsplit, rfl⟩)
  | case5 bs _ data rest hsplit _ ih =>
    rcases List.mem_cons.1 h with rfl | h
    · exact .inr (.inl ⟨data, rfl⟩)
    · exact hlater hsplit (ih h)
  | case6 bs _ id data rest hsplit _ _ ih => exact hlater hsplit (ih h)

theorem headerOf_eq_ticks {data : List UInt8} {ppqn : Nat}
    (h : headerOf data = .header (.ticks ppqn)) : ppqn ≤ 32767 := by
  unfold headerOf at h
  split at h
  · next high low _ =>
    have := low.toNat_lt
    unfold Chunk.ofDivision at h
    split at h
    · split at h
      · cases h
        omega
      · split at h <;> [cases h; split at h <;> cases h]
    · cases h
  · cases h

/-- The division of such a header is the one whose high byte has no negative. -/
theorem headerOf_eq_overflow {data : List UInt8} (h : headerOf data = .overflow) :
    data[4]? = some 0x80 := by
  unfold headerOf at h
  split at h
  · next high low _ =>
    unfold Chunk.ofDivision at h
    split at h
    · split at h
      · cases h
      · split at h
        · next hhigh => exact congrArg some (UInt8.toNat_inj.1 hhigh)
        · split at h <;> cases h
    · cases h
  · cases h

/-! ## The outcome -/

/-- What is imported from a file: the kept events of its tracks, in the order of their ticks, with
messages in their ranges. -/
structure Imported (bs : List UInt8) (song : Song) : Prop where
  ppqn_le : song.ppqn ≤ 32767
  tracks_eq : ∃ file data, unwrap bs = .ok file ∧ layout file = .ok (.ticks song.ppqn, data) ∧
    song.tracks = data.map fun d => keptEvents (readItems none d)
  ticks : ∀ events ∈ song.tracks, events.Pairwise fun a b => a.tick ≤ b.tick
  messages : ∀ events ∈ song.tracks, ∀ e ∈ events, e.message.FitsFile

/-- The file holds a header whose division has the high byte of the least signed byte. -/
def HoldsLeastDivision (bs : List UInt8) : Prop :=
  ∃ file data, unwrap bs = .ok file ∧ Holds file (ascii "MThd") data ∧ data[4]? = some 0x80

theorem imported {bs file : List UInt8} {ppqn : Nat} {data : List (List UInt8)}
    (hfile : unwrap bs = .ok file) (hlayout : layout file = .ok (.ticks ppqn, data))
    (hppqn : ppqn ≤ 32767) :
    Imported bs ⟨ppqn, data.map fun d => keptEvents (readItems none d)⟩ where
  ppqn_le := hppqn
  tracks_eq := ⟨file, data, hfile, hlayout, rfl⟩
  ticks events h := by
    obtain ⟨d, -, rfl⟩ := List.mem_map.1 h
    exact pairwise_keptEvents _
  messages events h e he := by
    obtain ⟨d, -, rfl⟩ := List.mem_map.1 h
    obtain ⟨⟨item, i⟩, hitem, hkept⟩ := List.mem_filterMap.1 he
    obtain ⟨m, hm, rfl⟩ := Option.map_eq_some_iff.1 hkept
    exact fitsFile_of_mem_readItems (List.fst_mem_of_mem_zipIdx hitem) hm

/-- A file is laid out, or it is malformed, or a header in it stops the reading. -/
theorem layout_outcome (file : List UInt8) :
    (∃ division data, layout file = .ok (division, data) ∧ .header division ∈ chunks file) ∨
      (∃ reason, layout file = .error (.malformed reason)) ∨
      (layout file = .error .overflow ∧ .overflow ∈ chunks file) := by
  unfold layout
  split
  · exact .inr (.inl ⟨_, rfl⟩)
  · exact .inr (.inl ⟨_, rfl⟩)
  · next h => exact .inr (.inr ⟨rfl, h ▸ List.mem_cons_self⟩)
  · exact .inr (.inl ⟨_, rfl⟩)
  · next division rest h =>
    split
    · next hrest =>
      exact .inr (.inr ⟨rfl, h ▸ List.mem_cons_of_mem _ (List.contains_iff_mem.1 hrest)⟩)
    · exact .inl ⟨division, _, rfl, h ▸ List.mem_cons_self⟩

/-- Any bytes are imported as a song, or malformed, or divided by frames, or hold a header at which
reading stops. No message in them is refused. -/
theorem read_outcome (bs : List UInt8) :
    (∃ song, read bs = .ok song ∧ Imported bs song) ∨
      (∃ reason, read bs = .error (.malformed reason)) ∨ read bs = .error .timecode ∨
      (read bs = .error .overflow ∧ HoldsLeastDivision bs) := by
  unfold read
  cases hfile : unwrap bs with
  | error reason => exact .inr (.inl ⟨reason, rfl⟩)
  | ok file =>
    rcases layout_outcome file with ⟨division, data, hlayout, hheader⟩ | ⟨reason, hlayout⟩ |
      ⟨hlayout, hoverflow⟩
    · cases division with
      | timecode =>
        refine .inr (.inr (.inl ?_))
        simp only [Except.mapError, bind, Except.bind, hlayout]
        rfl
      | ticks ppqn =>
        rcases holds_of_mem_chunks hheader with h | ⟨_, h⟩ | ⟨_, -, h⟩
        · cases h
        · cases h
        · refine .inl ⟨_, ?_, imported hfile hlayout (headerOf_eq_ticks h)⟩
          have htracks := mapM_eq_ok (l := data) fun d _ => readTrack_eq d
          simp only [Except.mapError, bind, Except.bind, hlayout, htracks]
          rfl
    · refine .inr (.inl ⟨reason, ?_⟩)
      simp only [Except.mapError, bind, Except.bind, hlayout]
    · refine .inr (.inr (.inr ⟨?_, ?_⟩))
      · simp only [Except.mapError, bind, Except.bind, hlayout]
      · rcases holds_of_mem_chunks hoverflow with h | ⟨_, h⟩ | ⟨data, hdata, h⟩
        · cases h
        · cases h
        · exact ⟨file, data, hfile, hdata, headerOf_eq_overflow h⟩

/-- A header that asks for the negative of the least signed byte is neither refused nor read. -/
theorem not_read_leastDivision :
    ¬ ∀ bs, (∃ song, read bs = .ok song) ∨ (∃ reason, read bs = .error (.malformed reason)) ∨
      read bs = .error .timecode := by
  intro h
  have hread : (match read [0x4D, 0x54, 0x68, 0x64, 0, 0, 0, 6, 0, 1, 0, 1, 0x80, 0] with
      | .error cause => decide (cause = .overflow)
      | .ok _ => false) = true := by
    decide +kernel
  rcases h [0x4D, 0x54, 0x68, 0x64, 0, 0, 0, 6, 0, 1, 0, 1, 0x80, 0] with ⟨_, h⟩ | ⟨_, h⟩ | h
  all_goals
    rw [h] at hread
    cases hread

end MidiScore.MidiFile
