import MidiScore.Proofs.Midi.Chunks
import MidiScore.Proofs.Midi.TrackData
import MidiScore.Proofs.Track
import MidiScore.Sequence

/-!
# What is written can be read

A sequence is written as a file unless two events of a track lie too far apart, and the file is read
back as the song that the sequence holds (`Sequence.song`). Gaps are taken between events in the
order of their ticks; summing them up again gives the ticks (`placeItems_trackOf`), and the data of
a track and the chunks of a file are read back as they were written.
-/

namespace MidiScore

open MidiFile

/-- The ticks between each event and the one before it; the first follows tick `last`. -/
def tickGaps (last : Nat) : List Event → List Nat
  | [] => []
  | e :: rest => (e.tick - last) :: tickGaps e.tick rest

/-- The tick of the last event, or `start` if there is none. -/
def finalTick (start : Nat) (events : List Event) : Nat :=
  (events.getLast?.map (·.tick)).getD start

theorem finalTick_cons (start : Nat) (e : Event) (events : List Event) :
    finalTick start (e :: events) = finalTick e.tick events := by
  unfold finalTick
  rw [List.getLast?_cons]
  cases events.getLast? <;> rfl

namespace MidiFile

/-! ## One track -/

/-- The messages of events with the gaps before them. -/
def trackOf (last : Nat) (events : List Event) : List (Nat × Message) :=
  (tickGaps last events).zip (events.map (·.message))

/-- Events whose ticks never go down are written with the gaps between them, unless one is too
long. -/
theorem gaps_of_sorted {last : Nat} {events : List Event}
    (hs : events.Pairwise fun a b => a.tick ≤ b.tick) (hlast : ∀ e ∈ events, last ≤ e.tick) :
    gaps last events =
      match (tickGaps last events).find? (maxGap < ·) with
      | some gap => .error (.gapTooLong gap)
      | none => .ok (trackOf last events) := by
  induction events generalizing last with
  | nil => rfl
  | cons e rest ih =>
    obtain ⟨he, hrest⟩ := List.pairwise_cons.1 hs
    have hmax : max last e.tick = e.tick := Nat.max_eq_right (hlast e List.mem_cons_self)
    unfold gaps tickGaps
    rw [hmax, ih hrest he, List.find?_cons]
    by_cases hgap : e.tick - last ≤ maxGap
    · rw [if_pos hgap, decide_eq_false (Nat.not_lt.2 hgap)]
      cases (tickGaps e.tick rest).find? (maxGap < ·) <;> rfl
    · rw [if_neg hgap, decide_eq_true (Nat.lt_of_not_le hgap)]

/-- The events of a track come back at their ticks, and then the end of the track. -/
theorem placeItems_trackOf {last : Nat} {events : List Event}
    (hs : events.Pairwise fun a b => a.tick ≤ b.tick) (hlast : ∀ e ∈ events, last ≤ e.tick)
    (hm : ∀ e ∈ events, e.message.validate = .ok ()) :
    placeItems last (itemsOf (trackOf last events ++ [endOfTrack])) =
      .ok (events ++ [⟨finalTick last events, .metaEvent .endOfTrack⟩]) := by
  induction events generalizing last with
  | nil => rfl
  | cons e rest ih =>
    obtain ⟨he, hrest⟩ := List.pairwise_cons.1 hs
    have htick : last + (e.tick - last) = e.tick := by
      have := hlast e List.mem_cons_self
      omega
    have hchecked : e.message.checked = .ok e.message := by
      unfold Message.checked
      rw [hm e List.mem_cons_self]
      rfl
    have hrest' := ih hrest he fun a ha => hm a (List.mem_cons_of_mem _ ha)
    rw [finalTick_cons]
    unfold itemsOf trackOf at hrest' ⊢
    simp only [tickGaps, List.map_cons, List.zip_cons_cons, List.cons_append, placeItems, htick,
      hchecked]
    rw [hrest']
    rfl

end MidiFile

/-- The tracks that were submitted, in the order in which their slots were reserved. -/
def Sequence.submitted (s : Sequence) : List Track :=
  s.slots.filterMap (·.track)

theorem Sequence.map_events_tracks (s : Sequence) :
    s.tracks.map (·.events) = s.submitted.map (·.events) := by
  have hfst : s.slots.zipIdx.map Prod.fst = s.slots := List.zipIdx_map_fst ..
  unfold tracks submitted
  rw [List.map_filterMap, List.map_filterMap]
  conv_rhs => rw [← hfst, List.filterMap_map]
  congr 1
  funext ⟨slot, id⟩
  exact Option.map_map ..

namespace MidiFile

/-! ## All tracks -/

theorem mapM_eq_ok {α β ε : Type} {f : α → Except ε β} {g : α → β} {l : List α}
    (h : ∀ a ∈ l, f a = .ok (g a)) : l.mapM f = .ok (l.map g) := by
  induction l with
  | nil => rfl
  | cons a rest ih =>
    rw [List.mapM_cons, h a List.mem_cons_self, ih fun b hb => h b (List.mem_cons_of_mem _ hb)]
    rfl

/-- The first gap that is too long decides, track by track. -/
theorem mapM_gaps (tracks : List (List Event))
    (hs : ∀ events ∈ tracks, events.Pairwise fun a b => a.tick ≤ b.tick) :
    tracks.mapM (gaps 0) =
      match (tracks.flatMap (tickGaps 0)).find? (maxGap < ·) with
      | some gap => .error (.gapTooLong gap)
      | none => .ok (tracks.map (trackOf 0)) := by
  induction tracks with
  | nil => rfl
  | cons events rest ih =>
    rw [List.mapM_cons, gaps_of_sorted (hs events List.mem_cons_self) fun _ _ => Nat.zero_le _,
      ih fun t ht => hs t (List.mem_cons_of_mem _ ht), List.flatMap_cons, List.find?_append]
    cases (tickGaps 0 events).find? (maxGap < ·) with
    | some gap => rfl
    | none =>
      rw [Option.none_or]
      cases (rest.flatMap (tickGaps 0)).find? (maxGap < ·) <;> rfl

end MidiFile

namespace Sequence

/-- The first gap between events of a track that a file cannot hold, track by track. -/
def longGap? (s : Sequence) : Option Nat :=
  (s.submitted.flatMap fun t => tickGaps 0 t.events).find? (maxGap < ·)

/-- What a file of the sequence says. -/
def song (s : Sequence) : Song where
  ppqn := s.timing.ppqn
  tracks :=
    [⟨0, .metaEvent s.timing.signatureEvent⟩, ⟨0, .metaEvent s.timing.tempoEvent⟩,
      ⟨0, .metaEvent .endOfTrack⟩] ::
    s.submitted.map fun t => t.events ++ [⟨finalTick 0 t.events, .metaEvent .endOfTrack⟩]

/-- The chunks of the sequence can be counted in two bytes, and the bytes of each in four. -/
structure FitsFile (s : Sequence) : Prop where
  chunks : s.submitted.length + 1 < 2 ^ 16
  bytes : ∀ t ∈ s.submitted, (trackBytes none (trackOf 0 t.events ++ [endOfTrack])).length < 2 ^ 32

/-- The bytes of a sequence in which no gap is too long. -/
def bytes (s : Sequence) : List UInt8 :=
  fileBytes s.timing.ppqn (conductor s.timing ::
    s.submitted.map fun t => trackOf 0 t.events ++ [endOfTrack])

theorem write_eq (s : Sequence) :
    write s = match s.longGap? with
      | some gap => .error (.gapTooLong gap)
      | none => .ok s.bytes := by
  have hsorted : ∀ events ∈ s.submitted.map Track.events,
      events.Pairwise fun a b => a.tick ≤ b.tick := by
    intro events he
    obtain ⟨t, -, rfl⟩ := List.mem_map.1 he
    exact t.pairwise_events
  have hmapM : (s.tracks.mapM fun t => gaps 0 t.events) =
      (s.submitted.map Track.events).mapM (gaps 0) := by
    rw [← s.map_events_tracks, List.mapM_map]
    rfl
  unfold write longGap? bytes
  rw [hmapM, mapM_gaps _ hsorted, List.flatMap_map, List.map_map]
  cases (s.submitted.flatMap fun t => tickGaps 0 t.events).find? (maxGap < ·) with
  | some gap => rfl
  | none => simp [Function.comp_def, bind, Except.bind, pure, Except.pure]

theorem longGap?_eq_none_iff {s : Sequence} :
    s.longGap? = none ↔ ∀ t ∈ s.submitted, ∀ gap ∈ tickGaps 0 t.events, gap ≤ maxGap := by
  unfold longGap?
  simp only [List.find?_eq_none, List.mem_flatMap, decide_eq_true_eq, Nat.not_lt]
  exact ⟨fun h t ht gap hgap => h gap ⟨t, ht, hgap⟩, fun h gap ⟨t, ht, hgap⟩ => h t ht gap hgap⟩

end Sequence

/-! ## Reading back -/

theorem Timing.fitsFile_signatureEvent (t : Timing) : t.signatureEvent.FitsFile := by
  obtain ⟨⟨-, hn⟩, hd, hd'⟩ := t.signature_valid
  have hlog : t.denominator.log2 < 8 := (Nat.log2_lt (Nat.pos_iff_ne_zero.1 hd)).2 hd'
  exact ⟨hn, by omega, by decide, by decide⟩

theorem Timing.fitsFile_tempoEvent (t : Timing) : t.tempoEvent.FitsFile :=
  t.tempo_valid.2

namespace MidiFile

theorem readTrack_trackBytes {ms : List (Nat × Message)}
    (h : ∀ p ∈ ms, p.1 ≤ maxGap ∧ p.2.FitsFile) :
    readTrack (trackBytes none ms) = placeItems 0 (itemsOf ms) := by
  unfold readTrack
  rw [readItems_trackBytes h]

theorem fitsFile_endOfTrack : endOfTrack.1 ≤ maxGap ∧ endOfTrack.2.FitsFile :=
  ⟨Nat.zero_le _, Message.fitsFile_metaEvent trivial⟩

theorem readTrack_conductor (t : Timing) :
    readTrack (trackBytes none (conductor t)) =
      .ok [⟨0, .metaEvent t.signatureEvent⟩, ⟨0, .metaEvent t.tempoEvent⟩,
        ⟨0, .metaEvent .endOfTrack⟩] := by
  rw [readTrack_trackBytes]
  · rfl
  · unfold conductor
    simp only [List.forall_mem_cons]
    exact ⟨⟨Nat.zero_le _, Message.fitsFile_metaEvent t.fitsFile_signatureEvent⟩,
      ⟨Nat.zero_le _, Message.fitsFile_metaEvent t.fitsFile_tempoEvent⟩, fitsFile_endOfTrack, nofun⟩

theorem length_trackBytes_conductor (t : Timing) :
    (trackBytes none (conductor t)).length = 19 := by
  rfl

theorem readTrack_trackOf {events : List Event}
    (hs : events.Pairwise fun a b => a.tick ≤ b.tick)
    (hm : ∀ e ∈ events, e.message.isVoice ∧ e.message.validate = .ok ())
    (hgap : ∀ gap ∈ tickGaps 0 events, gap ≤ maxGap) :
    readTrack (trackBytes none (trackOf 0 events ++ [endOfTrack])) =
      .ok (events ++ [⟨finalTick 0 events, .metaEvent .endOfTrack⟩]) := by
  rw [readTrack_trackBytes]
  · exact placeItems_trackOf hs (fun _ _ => Nat.zero_le _) fun e he => (hm e he).2
  · intro p hp
    rcases List.mem_append.1 hp with hp | hp
    · obtain ⟨hp₁, hp₂⟩ := List.of_mem_zip hp
      obtain ⟨e, he, hmsg⟩ := List.mem_map.1 hp₂
      refine ⟨hgap _ hp₁, ?_⟩
      rw [← hmsg]
      exact Message.fitsFile_of_isVoice (hm e he).1 (hm e he).2
    · rw [List.mem_singleton.1 hp]
      exact fitsFile_endOfTrack

end MidiFile

namespace Sequence

theorem read_bytes {s : Sequence} (hvoice : ∀ t ∈ s.submitted, ∀ e ∈ t.events,
      e.message.isVoice ∧ e.message.validate = .ok ())
    (hgap : ∀ t ∈ s.submitted, ∀ gap ∈ tickGaps 0 t.events, gap ≤ maxGap) (hfit : s.FitsFile) :
    MidiFile.read s.bytes = .ok s.song := by
  have hlength : ∀ t ∈ conductor s.timing ::
      s.submitted.map (fun t => trackOf 0 t.events ++ [endOfTrack]),
      (trackBytes none t).length < 2 ^ 32 := by
    intro t ht
    rcases List.mem_cons.1 ht with rfl | ht
    · rw [length_trackBytes_conductor]
      decide
    · obtain ⟨track, htrack, rfl⟩ := List.mem_map.1 ht
      exact hfit.bytes track htrack
  have htracks : (s.submitted.map fun t =>
        trackBytes none (trackOf 0 t.events ++ [endOfTrack])).mapM readTrack =
      .ok (s.submitted.map fun t =>
        t.events ++ [⟨finalTick 0 t.events, .metaEvent .endOfTrack⟩]) := by
    rw [List.mapM_map]
    exact mapM_eq_ok fun t ht => readTrack_trackOf t.pairwise_events (hvoice t ht) (hgap t ht)
  unfold MidiFile.read bytes
  rw [unwrap_fileBytes]
  simp only [Except.mapError, bind, Except.bind]
  rw [layout_fileBytes s.timing.ppqn_valid.2 hlength]
  simp only [List.map_cons, List.map_map, Function.comp_def, List.mapM_cons, readTrack_conductor,
    bind, Except.bind, htracks]
  rfl

theorem length_song_tracks (s : Sequence) : s.song.tracks.length = s.submitted.length + 1 := by
  simp [song]

/-- The header of a file counts its tracks. -/
theorem ofBigEndian_header_bytes {s : Sequence} (hfit : s.FitsFile) :
    ofBigEndian ((s.bytes.drop 10).take 2) = s.song.tracks.length := by
  have hcount : (s.bytes.drop 10).take 2 = bigEndian (s.submitted.length + 1) 2 := by
    simp [bytes, fileBytes, header, chunk, headerId, bigEndian]
  have := hfit.chunks
  rw [hcount, ofBigEndian_bigEndian, length_song_tracks]
  omega

/-- **What is written can be read.** Writing a sequence fails exactly when a track has an event too
long after the one before it, and then names the first such gap. Otherwise, if the submitted tracks
hold only voice messages that an instrument accepts and their chunks fit, the file is read back as
the song of the sequence: its resolution, a track with its time signature and tempo, and each
submitted track with its events at their ticks and an end at the last of them. -/
theorem read_of_write (s : Sequence) :
    ((∃ cause, write s = .error cause) ↔
        ∃ t ∈ s.submitted, ∃ gap ∈ tickGaps 0 t.events, maxGap < gap) ∧
      (∀ cause, write s = .error cause →
        ∃ gap, s.longGap? = some gap ∧ cause = .gapTooLong gap) ∧
      ((∀ t ∈ s.submitted, ∀ gap ∈ tickGaps 0 t.events, gap ≤ maxGap) →
        (∀ t ∈ s.submitted, ∀ e ∈ t.events, e.message.isVoice ∧ e.message.validate = .ok ()) →
        s.FitsFile →
        ∃ file, write s = .ok file ∧
          ofBigEndian ((file.drop 10).take 2) = s.song.tracks.length ∧
          MidiFile.read file = .ok s.song) := by
  have hfails : (∃ cause, write s = .error cause) ↔ s.longGap? ≠ none := by
    rw [write_eq]
    cases s.longGap? <;> simp
  refine ⟨?_, fun cause h => ?_, fun hgap hvoice hfit => ?_⟩
  · rw [hfails, Ne, longGap?_eq_none_iff]
    simp only [not_forall, Nat.not_le, exists_prop]
  · rw [write_eq] at h
    cases hlong : s.longGap? with
    | none =>
      rw [hlong] at h
      cases h
    | some gap =>
      rw [hlong] at h
      cases h
      exact ⟨gap, rfl, rfl⟩
  · refine ⟨s.bytes, ?_, ofBigEndian_header_bytes hfit, read_bytes hvoice hgap hfit⟩
    rw [write_eq, longGap?_eq_none_iff.2 hgap]

/-- Two filled slots and an empty one. The first track was not written in order and lacks an event
that was pulled out; its gaps take one to four bytes, and status bytes repeat. -/
def sparse : Sequence where
  timing := .standard
  slots :=
    [{ channel := 0, track := some {
        channel := 0
        log := #[some ⟨0, .programChange 0 40⟩, some ⟨127, .noteOn 0 60 64⟩, none,
          some ⟨255, .noteOn 0 64 0⟩, some ⟨16639, .noteOff 0 60 96⟩, some ⟨0, .pitchBend 0 16383⟩,
          some ⟨16639 + 0x0FFFFFFF, .controlChange 0 64 0⟩] } },
      { channel := 1 },
      { channel := 9, track := some { channel := 9 } }]

/-- The events of the first track of `sparse`. -/
def sparseEvents : List Event :=
  [⟨0, .programChange 0 40⟩, ⟨0, .pitchBend 0 16383⟩, ⟨127, .noteOn 0 60 64⟩, ⟨255, .noteOn 0 64 0⟩,
    ⟨16639, .noteOff 0 60 96⟩, ⟨16639 + 0x0FFFFFFF, .controlChange 0 64 0⟩]

theorem events_sparse : sparse.submitted.map Track.events = [sparseEvents, []] := by
  simp [sparse, sparseEvents, submitted, Track.events, Track.written, List.mergeSort,
    List.MergeSort.Internal.splitInTwo, List.splitAt, List.splitAt.go]

theorem forall_sparse {P : List Event → Prop} (h : ∀ events ∈ [sparseEvents, []], P events) :
    ∀ t ∈ sparse.submitted, P t.events := by
  rw [← events_sparse] at h
  exact List.forall_mem_map.1 h

theorem read_of_write_sparse :
    (∀ t ∈ sparse.submitted, ∀ gap ∈ tickGaps 0 t.events, gap ≤ maxGap) ∧
      (∀ t ∈ sparse.submitted, ∀ e ∈ t.events,
        e.message.isVoice ∧ e.message.validate = .ok ()) ∧
      sparse.FitsFile ∧
      ∃ file, write sparse = .ok file ∧
        ofBigEndian ((file.drop 10).take 2) = sparse.song.tracks.length ∧
        MidiFile.read file = .ok sparse.song := by
  have hgap : ∀ t ∈ sparse.submitted, ∀ gap ∈ tickGaps 0 t.events, gap ≤ maxGap :=
    forall_sparse (P := fun events => ∀ gap ∈ tickGaps 0 events, gap ≤ maxGap)
      (by decide +kernel)
  have hvoice : ∀ t ∈ sparse.submitted, ∀ e ∈ t.events,
      e.message.isVoice ∧ e.message.validate = .ok () :=
    forall_sparse (P := fun events => ∀ e ∈ events,
      e.message.isVoice ∧ e.message.validate = .ok ()) (by decide +kernel)
  have hfit : sparse.FitsFile := by
    refine ⟨by decide, forall_sparse (P := fun events =>
      (trackBytes none (trackOf 0 events ++ [endOfTrack])).length < 2 ^ 32) (by decide +kernel)⟩
  exact ⟨hgap, hvoice, hfit, (read_of_write sparse).2.2 hgap hvoice hfit⟩

end Sequence

end MidiScore
