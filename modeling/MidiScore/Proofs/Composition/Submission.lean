import Mathlib.Data.List.Basic
import MidiScore.Proofs.Composition.Meetings

/-!
# What workers hand in

Each worker fills its own slot, and nobody else does: at any time the sequence holds the tracks of
the workers that have finished, each in the slot of its number, and the other slots are as they were
reserved (`Ensemble.Submitted`).
-/

namespace MidiScore

/-! ## Filled sequences -/

namespace Sequence

variable {s s' : Sequence} {id : Nat} {track : Track}

theorem of_submit (h : s.submit id track = .ok s') : id < s.slots.length ∧ s' = { s with
    slots := s.slots.modify id fun slot => { slot with track := some track } } := by
  unfold submit at h
  split at h
  · next hid =>
    cases h
    exact ⟨hid, rfl⟩
  · cases h

theorem le_of_submit_error {cause : UnknownTrack} (h : s.submit id track = .error cause) :
    s.slots.length ≤ id := by
  unfold submit at h
  split at h
  · cases h
  · next hid => exact Nat.le_of_not_lt hid

/-- If every slot is filled, none is passed over. -/
theorem tracks_eq_map (filled : ∀ slot ∈ s.slots, slot.track.isSome) :
    s.tracks = s.slots.zipIdx.map fun (slot, id) =>
      { id, channel := slot.channel, events := slot.track.elim [] Track.events } := by
  unfold tracks
  refine List.filterMap_eq_map_iff_forall_eq_some.2 fun (slot, id) hmem => ?_
  obtain ⟨track, htrack⟩ := Option.isSome_iff_exists.1
    (filled slot (List.fst_mem_of_mem_zipIdx hmem))
  simp [htrack]

end Sequence

/-- The track that a worker has handed in. -/
def Worker.handedIn? (w : Worker) : Option Track :=
  if w.phase = .finished then some w.channel.track else none

theorem Worker.handedIn?_of_finished {w : Worker} (h : w.phase = .finished) :
    w.handedIn? = some w.channel.track :=
  if_pos h

theorem Worker.handedIn?_eq_none {w : Worker} (h : w.phase ≠ .finished) : w.handedIn? = none :=
  if_neg h

/-- A slot with what was handed in for it. -/
def Slot.fill (slot : Slot) (track? : Option Track) : Slot :=
  track?.elim slot fun track => { slot with track := some track }

namespace Ensemble

variable {e e' e₀ : Ensemble} {i : Nat} {w w' : Worker} {journal : Journal}

/-- The track that worker `i` has handed in. -/
def handedIn? (e : Ensemble) (i : Nat) : Option Track :=
  (e.workers[i]?).bind (·.handedIn?)

theorem handedIn?_set (hi : e.workers[i]? = some w) (he : e'.workers = e.workers.set i w') :
    e'.handedIn? = Function.update e.handedIn? i w'.handedIn? := by
  unfold handedIn?
  rw [he]
  exact bind_getElem?_set hi w' (·.handedIn?)

/-- The sequence holds what the workers have handed in. -/
structure Submitted (e₀ e : Ensemble) : Prop where
  timing : e.sequence.timing = e₀.sequence.timing
  slots : ∀ i, e.sequence.slots[i]? =
    (e₀.sequence.slots[i]?).map fun slot : Slot => slot.fill (e.handedIn? i)

theorem submitted_of_unfinished (h : ∀ w ∈ e₀.workers, w.phase ≠ .finished) :
    Submitted e₀ e₀ := by
  refine ⟨rfl, fun i => ?_⟩
  have hnone : e₀.handedIn? i = none :=
    Option.bind_eq_none_iff.2 fun w hi => Worker.handedIn?_eq_none (h w (List.mem_of_getElem? hi))
  rw [hnone]
  exact Option.map_id'.symm

/-- A worker that does not finish hands in nothing. -/
theorem Submitted.of_set (h : Submitted e₀ e) (hi : e.workers[i]? = some w)
    (workers : e'.workers = e.workers.set i w') (sequence : e'.sequence = e.sequence)
    (active : w.phase ≠ .finished) (active' : w'.phase ≠ .finished) : Submitted e₀ e' := by
  refine ⟨by rw [sequence, h.timing], fun j => ?_⟩
  have hsame : e'.handedIn? = e.handedIn? := by
    rw [handedIn?_set hi workers, Worker.handedIn?_eq_none active']
    apply Function.update_eq_self_iff.2
    unfold handedIn?
    rw [hi]
    exact (Worker.handedIn?_eq_none active).symm
  rw [sequence, hsame]
  exact h.slots j

/-- A worker that finishes fills its slot. -/
theorem Submitted.of_finish (h : Submitted e₀ e) (hi : e.workers[i]? = some w)
    (workers : e'.workers = e.workers.set i w') (finished : w'.phase = .finished)
    (submitted : e.sequence.submit i w'.channel.track = .ok e'.sequence) : Submitted e₀ e' := by
  obtain ⟨hlt, hseq⟩ := Sequence.of_submit submitted
  refine ⟨by rw [hseq, h.timing], fun j => ?_⟩
  rw [hseq, handedIn?_set hi workers]
  by_cases hj : j = i
  · subst hj
    rw [Function.update_self, Worker.handedIn?_of_finished finished]
    show (e.sequence.slots.modify j _)[j]? = _
    rw [List.getElem?_modify_eq, h.slots j]
    cases e₀.sequence.slots[j]? with
    | none => rfl
    | some slot =>
      cases e.handedIn? j with
      | none => rfl
      | some track => rfl
  · rw [Function.update_of_ne hj]
    show (e.sequence.slots.modify i _)[j]? = _
    rw [List.getElem?_modify_ne _ _ (Ne.symm hj)]
    exact h.slots j

/-- A move after which no worker has failed. -/
theorem Submitted.move {arrival : Option (Nat × Nat)} (h : Submitted e₀ e) (numbered : e.Numbered)
    (unfailed : e'.Unfailed) (hi : e.workers[i]? = some w) (hm : Move e i w arrival e') :
    Submitted e₀ e' := by
  cases hm with
  | finish ready done passes flushed submitted =>
    refine h.of_finish hi rfl rfl ?_
    rw [← numbered i w hi]
    exact submitted
  | beginPass ready | pass ready =>
    have active := Worker.not_finished_of_ready ready
    exact h.of_set hi rfl rfl active active
  | operate ready | wait ready | release ready =>
    exact h.of_set hi rfl rfl (Worker.not_finished_of_ready ready) nofun
  | wake waiting => exact h.of_set hi rfl rfl (fun hf => by simp [waiting] at hf) nofun
  | fail _ failed => exact (unfailed.false_of_set hi rfl failed).elim

theorem Course.submitted (course : Course e₀ journal e) : Submitted e₀ e := by
  refine course.induction (P := fun _ e => Submitted e₀ e) ?_ ?_
  · refine submitted_of_unfinished fun w hw => ?_
    obtain ⟨i, hi⟩ := List.mem_iff_getElem?.1 hw
    exact course.atRest.not_finished hi
  · intro journal e e' i w arrival course h unfailed hi hm
    exact h.move course.numbered unfailed hi hm

theorem Submitted.length_slots (h : Submitted e₀ e) :
    e.sequence.slots.length = e₀.sequence.slots.length := by
  refine Nat.le_antisymm ?_ ?_
  · rw [← List.getElem?_eq_none_iff, h.slots, List.getElem?_eq_none (Nat.le_refl _)]
    rfl
  · rw [← List.getElem?_eq_none_iff, ← Option.map_eq_none_iff, ← h.slots,
      List.getElem?_eq_none (Nat.le_refl _)]

end Ensemble

end MidiScore
