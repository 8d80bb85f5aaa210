import MidiScore.Proofs.Channel.Flush
import MidiScore.Proofs.Composition.Steps

/-!
# Every key of a composition is released

In any order of steps the channels of the workers that have not failed stay accounted for, and a
track is handed in only after a flush. So no key is left sounding: not by operations on a channel
that end with a flush, nor in any track of a compiled composition.
-/

namespace MidiScore

open ChannelM

/-- The channel of a worker is accounted for as long as the worker has not failed. -/
def Worker.IsAccounted (w : Worker) : Prop :=
  ¬ w.HasFailed → Accounted [] w.channel

/-- Every slot that is filled holds a settled track. -/
def Sequence.IsSettled (s : Sequence) : Prop :=
  ∀ slot ∈ s.slots, ∀ t, slot.track = some t → Settled t.events

theorem keeps_enter (b : Block) : Keeps (Accounted []) b.enter := by
  unfold Block.enter
  split
  · exact (performable_accounted.soundable.follow _).bind fun _ => ensures_pure fun _ => id
  · exact ensures_pure fun _ => id

/-- A statement is no replacement of a track. -/
theorem Statement.operation?_ne_replaceTrack {s : Statement} {op : Operation} {t : Track}
    (h : s.operation? = some op) : op ≠ .replaceTrack t := by
  cases s <;> cases h <;> nofun

namespace Ensemble

variable {e e' : Ensemble} {i : Nat}

/-- Workers are accounted for and the tracks handed in are settled. -/
structure IsAccounted (e : Ensemble) : Prop where
  workers : ∀ w ∈ e.workers, w.IsAccounted
  sequence : e.sequence.IsSettled

theorem IsAccounted.set {w : Worker} (h : e.IsAccounted) (hw : w.IsAccounted)
    (he : e'.workers = e.workers.set i w) (hs : e'.sequence = e.sequence) : e'.IsAccounted := by
  refine ⟨fun w' hw' => ?_, by rw [hs]; exact h.sequence⟩
  rw [he] at hw'
  rcases List.mem_or_eq_of_mem_set hw' with hw' | rfl
  · exact h.workers w' hw'
  · exact hw

/-- Handing in a settled track leaves all tracks settled. -/
theorem isSettled_submit {s s' : Sequence} {id : Nat} {t : Track} (h : s.IsSettled)
    (ht : Settled t.events) (hs : s.submit id t = .ok s') : s'.IsSettled := by
  unfold Sequence.submit at hs
  split at hs
  · cases hs
    intro slot hslot t' ht'
    obtain ⟨j, hj⟩ := List.mem_iff_getElem?.1 hslot
    rw [List.getElem?_modify] at hj
    obtain ⟨slot', hold, rfl⟩ := Option.map_eq_some_iff.1 hj
    split at ht'
    · cases ht'
      exact ht
    · exact h slot' (List.mem_of_getElem? hold) t' ht'
  · cases hs

theorem IsAccounted.move {w : Worker} {arrival : Option (Nat × Nat)} (h : e.IsAccounted)
    (hi : e.workers[i]? = some w) (hm : Move e i w arrival e') : e'.IsAccounted := by
  have hw := h.workers w (List.mem_of_getElem? hi)
  cases hm with
  | beginPass ready _ _ entered =>
    have hc := hw (Worker.not_hasFailed_of_ready ready)
    exact h.set (fun _ => keeps_enter w.block _ _ _ hc entered) rfl rfl
  | @finish t channel _ ready _ _ flushed submitted =>
    have hc := hw (Worker.not_hasFailed_of_ready ready)
    have hc' := performable_accounted.soundable.flush _ _ _ hc flushed
    have hset : ({ e with workers := e.workers.set i { w with channel, phase := .finished } } :
        Ensemble).IsAccounted := h.set (fun _ => hc') rfl rfl
    exact ⟨hset.workers,
      isSettled_submit h.sequence (hc'.settled (pending_of_flush flushed)).1 submitted⟩
  | operate ready todo operation performed =>
    have hc := hw (Worker.not_hasFailed_of_ready ready)
    refine h.set (fun _ => keeps_perform (fun t ht => ?_) _ _ _ hc performed) rfl rfl
    exact absurd ht (Statement.operation?_ne_replaceTrack operation)
  | pass ready =>
    refine h.set ?_ rfl rfl
    exact fun _ => hw (Worker.not_hasFailed_of_ready ready)
  | wait ready =>
    refine h.set ?_ rfl rfl
    exact fun _ => hw (Worker.not_hasFailed_of_ready ready)
  | release ready _ _ _ _ leapt =>
    have hc := hw (Worker.not_hasFailed_of_ready ready)
    exact h.set (fun _ => performable_accounted.soundable.leapTo _ _ _ _ hc leapt) rfl rfl
  | wake waiting _ _ _ leapt =>
    have hc := hw (Worker.not_hasFailed_of_waiting waiting)
    exact h.set (fun _ => performable_accounted.soundable.leapTo _ _ _ _ hc leapt) rfl rfl
  | fail _ failed => exact h.set (fun hno => absurd failed hno) rfl rfl

theorem IsAccounted.steps (h : e.IsAccounted) (hs : Steps e e') : e'.IsAccounted := by
  induction hs with
  | refl => exact h
  | tail _ hstep ih =>
    obtain ⟨i, hi⟩ := hstep
    obtain ⟨w, hw, hm⟩ := move_of_step? hi
    exact ih.move hw hm

end Ensemble

theorem Composition.isAccounted_ensemble {c : Composition} {timing : Timing} {e : Ensemble}
    (h : c.ensemble timing = .ok e) : e.IsAccounted := by
  obtain ⟨numbers, -, rfl⟩ := exists_numbers_of_ensemble h
  refine ⟨fun w hw => ?_, fun slot hslot t ht => ?_⟩
  · obtain ⟨i, hi⟩ := List.mem_iff_getElem?.1 hw
    obtain ⟨b, number, -, rfl⟩ := crew_getElem? hi
    exact fun _ => accounted_fresh rfl
  · obtain ⟨n, -, rfl⟩ := List.mem_map.1 hslot
    cases ht

/-- A sequence is the outcome of an ensemble only if it was gathered by it. -/
theorem Ensemble.sequence_of_outcome {e : Ensemble} {patience : Nat} {s : Sequence}
    (h : e.outcome patience = .ok s) : e.sequence = s := by
  unfold outcome at h
  split at h
  · cases h
  · split at h
    · cases h
      rfl
    · cases h

/-- **No hanging notes.** Take any operations on a channel in its first state on an empty track,
with replacements by empty tracks only, none of which fails. After a flush each strike of a key in
the track is followed by a release of the key or by a message that cuts all sound, and no key is
held. The tracks of a compiled composition are such tracks. -/
theorem settled_after_flush :
    (∀ (track : Track) (percussion : Bool) (timing : Timing) (ops : List Operation)
        (c₀ c₁ c : Channel) (t : Nat), track.written = [] →
        (∀ fresh, .replaceTrack fresh ∈ ops → fresh.written = []) →
        Channel.onTrack track percussion timing = .ok c₀ →
        performEach ops c₀ = .ok ⟨⟩ c₁ → flush c₁ = .ok t c →
        Settled c.track.events ∧ ∀ key, ¬ (c.noteState key).isOn) ∧
      ∀ (composition : Composition) (options : CompileOptions) (s : Sequence),
        composition.compile options = .ok s → ∀ t ∈ s.tracks, Settled t.events := by
  constructor
  · intro track percussion timing ops c₀ c₁ c t hw hfresh hstart hops hflush
    have h₀ := accounted_onTrack hw hstart
    have h₁ := keeps_performEach hfresh c₀ _ c₁ h₀ hops
    have h := performable_accounted.soundable.flush c₁ t c h₁ hflush
    exact h.settled (pending_of_flush hflush)
  · intro composition options s h t ht
    unfold Composition.compile at h
    cases he : composition.ensemble options.timing with
    | error cause =>
      rw [he] at h
      cases h
    | ok e =>
      rw [he] at h
      have hs : e.settle.sequence = s := Ensemble.sequence_of_outcome h
      have hsettled : s.IsSettled := by
        rw [← hs]
        exact ((Composition.isAccounted_ensemble he).steps e.steps_settle).sequence
      unfold Sequence.tracks at ht
      obtain ⟨⟨slot, id⟩, hslot, hmap⟩ := List.mem_filterMap.1 ht
      obtain ⟨track, htrack, rfl⟩ := Option.map_eq_some_iff.1 hmap
      exact hsettled slot (List.fst_mem_of_mem_zipIdx hslot) track htrack

/-- A release that is taken back by a slur, a strike while muted and a change of the track. -/
def joinedRun : List Operation :=
  [.setSlurred true, .playNote .c 0 480 96, .advance 480, .playNote .c 0 10 96, .setMuted true,
   .playNote .e 0 20 96, .advance 5, .setMuted false, .replaceTrack { channel := 0 },
   .playNote .g 0 30 96]

/-- A block that plays two slurred quarters on one key. -/
def slurredPair : Composition where
  blocks := [{
    name := "lead"
    statements := [⟨⟨1, 1⟩, .playPhrase {
      melody := ⟨[⟨.pitch .c, .plain⟩, ⟨.pitch .c, .plain⟩]⟩
      rhythm := ⟨[Beat.quarter.withSlur true]⟩ }⟩] }]

theorem settled_after_joinedRun :
    (∃ c₀ c₁ c t, Channel.onTrack { channel := 0 } false .standard = .ok c₀ ∧
      performEach joinedRun c₀ = .ok ⟨⟩ c₁ ∧ flush c₁ = .ok t c ∧
      Settled c.track.events ∧ ∀ key, ¬ (c.noteState key).isOn) ∧
    ∃ s, slurredPair.compile {} = .ok s ∧ ∀ t ∈ s.tracks, Settled t.events := by
  constructor
  · obtain ⟨_, hops⟩ := eq_ok_of_succeeds
      (show succeeds (performEach joinedRun) { track := { channel := 0 } } by decide +kernel)
    obtain ⟨t, hflush⟩ := eq_ok_of_succeeds
      (show succeeds flush ((performEach joinedRun).leaves { track := { channel := 0 } }) by
        decide +kernel)
    have hfresh : ∀ fresh, .replaceTrack fresh ∈ joinedRun → fresh.written = [] := by
      intro fresh h
      simp only [joinedRun, List.mem_cons, reduceCtorEq, false_or, List.not_mem_nil, or_false,
        Operation.replaceTrack.injEq] at h
      rw [h]
      rfl
    exact ⟨_, _, _, t, rfl, hops, hflush,
      settled_after_flush.1 { channel := 0 } false .standard joinedRun _ _ _ t rfl hfresh rfl hops
        hflush⟩
  · have hok : (slurredPair.compile {}).isOk := by decide +kernel
    cases hs : slurredPair.compile {} with
    | ok s => exact ⟨s, rfl, settled_after_flush.2 slurredPair {} s hs⟩
    | error cause =>
      rw [hs] at hok
      cases hok

end MidiScore
