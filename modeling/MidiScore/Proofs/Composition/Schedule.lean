import MidiScore.Proofs.Composition.Order
import MidiScore.Proofs.Composition.Reference

/-!
# Compiling does not depend on the schedule

One run in which all workers finish leaves a plan, by which no run gets stuck, and a reference, to
which every run keeps. So every order of steps comes to the same sequence, and as the links are
clean afterwards, so does every later compile.
-/

namespace MidiScore

namespace Sequence

/-- The sequence with the tracks of the rehearsals in its slots. -/
def withRehearsals (s : Sequence) (played : List Rehearsal) : Sequence :=
  { s with slots := s.slots.mapIdx fun i slot => slot.fill ((played[i]?).map (·.channel.track)) }

variable {s : Sequence} {played : List Rehearsal}

theorem filled_withRehearsals (all : s.slots.length = played.length) :
    ∀ slot ∈ (s.withRehearsals played).slots, slot.track.isSome := by
  intro slot hslot
  obtain ⟨i, hi⟩ := List.mem_iff_getElem?.1 hslot
  unfold withRehearsals at hi
  rw [List.getElem?_mapIdx] at hi
  obtain ⟨slot₀, hi₀, rfl⟩ := Option.map_eq_some_iff.1 hi
  have hlt := (List.getElem?_eq_some_iff.1 hi₀).1
  rw [all] at hlt
  rw [List.getElem?_eq_getElem hlt]
  rfl

theorem length_tracks_withRehearsals (all : s.slots.length = played.length) :
    (s.withRehearsals played).tracks.length = s.slots.length := by
  rw [tracks_eq_map (filled_withRehearsals all), List.length_map, List.length_zipIdx]
  exact List.length_mapIdx

/-- With a rehearsal for each slot, each slot is filled from its own. -/
theorem getElem?_tracks_withRehearsals (all : s.slots.length = played.length) {i : Nat}
    {slot : Slot} {p : Rehearsal} (hi : s.slots[i]? = some slot) (hp : played[i]? = some p) :
    (s.withRehearsals played).tracks[i]? =
      some { id := i, channel := slot.channel, events := p.channel.track.events } := by
  rw [tracks_eq_map (filled_withRehearsals all), List.getElem?_map, List.getElem?_zipIdx]
  unfold withRehearsals
  rw [List.getElem?_mapIdx, hi, hp]
  simp [Slot.fill]

end Sequence

namespace Ensemble

variable {e e₀ : Ensemble} {i : Nat} {journal : Journal} {joins : Timetable}
  {played : List Rehearsal}

/-- All workers take their steps, in some order, and all finish. -/
structure Completes (e₀ e : Ensemble) : Prop where
  reached : Steps e₀ e
  finished : ∀ w ∈ e.workers, w.phase = .finished

theorem Completes.unfailed (h : Completes e₀ e) : e.Unfailed := by
  intro w hw
  exact Worker.not_hasFailed_of_finished (h.finished w hw)

theorem Completes.exists_course (h : Completes e₀ e) (atRest : e₀.AtRest) :
    ∃ journal, Course e₀ journal e := by
  obtain ⟨journal, run⟩ := exists_run h.reached
  exact ⟨journal, atRest, run, h.unfailed⟩

/-- Where some order of steps leads all workers to their end, none has failed at the start. -/
theorem Course.unfailed_start (course : Course e₀ journal e) : e₀.Unfailed := by
  refine course.induction (P := fun _ e => e.Unfailed → e₀.Unfailed) id ?_ course.unfailed
  intro journal e e' i w arrival course h _ _ _ _
  exact h course.unfailed

theorem Reference.handedIn?_eq (ref : Reference e₀ joins played) (course : Course e₀ journal e)
    (h : Rehearsed joins e₀ journal e) (finished : ∀ w ∈ e.workers, w.phase = .finished) (i : Nat) :
    e.handedIn? i = (played[i]?).map (·.channel.track) := by
  unfold handedIn?
  cases hi : e.workers[i]? with
  | none =>
    rw [List.getElem?_eq_none_iff, course.length_workers, ← ref.length] at hi
    rw [List.getElem?_eq_none hi]
    rfl
  | some w =>
    have hfinished := finished w (List.mem_of_getElem? hi)
    rw [ref.played_of_finished h hi hfinished]
    exact Worker.handedIn?_of_finished hfinished

/-- Where all workers finish, the sequence holds the tracks of their rehearsals. -/
theorem Reference.sequence_eq (ref : Reference e₀ joins played) (atRest : e₀.AtRest)
    (h : Completes e₀ e) : e.sequence = e₀.sequence.withRehearsals played := by
  obtain ⟨journal, course⟩ := h.exists_course atRest
  have hr := (ref.rehearsed atRest course.unfailed_start course.run).2
  have submitted := course.submitted
  have hslots : e.sequence.slots = (e₀.sequence.withRehearsals played).slots := by
    apply List.ext_getElem?
    intro i
    unfold Sequence.withRehearsals
    rw [submitted.slots, ref.handedIn?_eq course hr h.finished, List.getElem?_mapIdx]
  calc e.sequence = ⟨e.sequence.timing, e.sequence.slots⟩ := rfl
    _ = e₀.sequence.withRehearsals played := by
      rw [hslots, submitted.timing]
      rfl

/-! ## Settling -/

theorem step?_eq_none_of_next? (h : e.next? = none) (i : Nat) : e.step? i = none := by
  by_cases hi : i < e.workers.length
  · exact List.findSome?_eq_none_iff.1 h i (List.mem_range.2 hi)
  · unfold step?
    rw [List.getElem?_eq_none (Nat.le_of_not_lt hi)]
    rfl

theorem next?_settle (e : Ensemble) : e.settle.next? = none := by
  fun_induction settle e with
  | case1 e e' h ih => exact ih
  | case2 e h => exact h

/-- With a plan and a reference no order of steps ends before all workers have finished. -/
theorem Reference.finished_or_step {plan : List Nat} (ref : Reference e₀ joins played)
    (planned : Plan e₀ plan) (atRest : e₀.AtRest) (unfailed : e₀.Unfailed)
    (reached : Steps e₀ e) :
    (∀ w ∈ e.workers, w.phase = .finished) ∨ ∃ i e', e.step? i = some e' := by
  obtain ⟨journal, run⟩ := exists_run reached
  exact planned.finished_or_step ⟨atRest, run, (ref.rehearsed atRest unfailed run).1⟩

theorem Reference.completes_settle {plan : List Nat} (ref : Reference e₀ joins played)
    (planned : Plan e₀ plan) (atRest : e₀.AtRest) (unfailed : e₀.Unfailed) :
    Completes e₀ e₀.settle := by
  have reached := e₀.steps_settle
  refine ⟨reached, ?_⟩
  rcases ref.finished_or_step planned atRest unfailed reached with finished | ⟨i, e', hstep⟩
  · exact finished
  · rw [step?_eq_none_of_next? e₀.next?_settle i] at hstep
    cases hstep

theorem outcome_of_finished (finished : ∀ w ∈ e.workers, w.phase = .finished) (patience : Nat) :
    e.outcome patience = .ok e.sequence := by
  have hfailure : e.workers.findSome? (·.failure?) = none := by
    apply List.findSome?_eq_none_iff.2
    intro w hw
    unfold Worker.failure?
    rw [finished w hw]
  have hstuck : e.workers.filter (!·.isFinished) = [] := by
    apply List.filter_eq_nil_iff.2
    intro w hw
    simp [Worker.isFinished, finished w hw]
  unfold outcome
  rw [hfailure, hstuck]

end Ensemble

namespace Composition

open Ensemble (Completes Reference Plan)

theorem compile_of_completes {c : Composition} {options : CompileOptions} {e₀ : Ensemble}
    (start : c.ensemble options.timing = .ok e₀) (h : Completes e₀ e₀.settle) :
    c.compile options = .ok e₀.settle.sequence := by
  unfold compile
  rw [start]
  exact Ensemble.outcome_of_finished h.finished options.patience

theorem render_congr {c c' : Composition} {options : CompileOptions}
    (h : c.compile options = c'.compile options) : c.render options = c'.render options := by
  unfold render
  rw [h]

/-- The tracks of a complete run are those of the blocks that are played alone. -/
theorem tracks_of_completes {c : Composition} {timing : Timing} {e₀ e : Ensemble}
    {joins : Timetable} {played : List Rehearsal} (idle : ∀ r ∈ c.links, r.IsIdle)
    (start : c.ensemble timing = .ok e₀) (h : Completes e₀ e) (ref : e₀.Reference joins played) :
    e.sequence.tracks.length = c.blocks.length ∧
      ∀ (i : Nat) (b : Block), c.blocks[i]? = some b → ∃ number p,
        e₀.workers[i]? = some (.start b i number timing) ∧ played[i]? = some p ∧
          e.sequence.tracks[i]? =
            some { id := i, channel := number, events := p.channel.track.events } := by
  have atRest := atRest_ensemble start idle
  have hplayed : played.length = c.blocks.length := by
    rw [ref.length, length_workers_ensemble start]
  have all : e₀.sequence.slots.length = played.length := by rw [atRest.slots, ref.length]
  rw [ref.sequence_eq atRest h]
  refine ⟨?_, fun i b hb => ?_⟩
  · rw [Sequence.length_tracks_withRehearsals all, all, hplayed]
  · have hlt := (List.getElem?_eq_some_iff.1 hb).1
    have hp := List.getElem?_eq_getElem (hplayed ▸ hlt)
    have hi := List.getElem?_eq_getElem (length_workers_ensemble start ▸ hlt)
    obtain ⟨b', number, hb', hslot, hw⟩ := exists_block_of_ensemble start hi
    rw [hb] at hb'
    cases hb'
    exact ⟨number, _, hw ▸ hi, hp, Sequence.getElem?_tracks_withRehearsals all hslot hp⟩

/-- **Compiling does not depend on the schedule.** Take a composition at whose links nobody sits,
as at new ones, and a run of its workers, in any order of their steps, in which all finish. There is
a reference: the blocks are played alone, and each meeting ends with the latest clock with which a
member comes to it. For every reference the tracks of the run are those of its rehearsals, one for
each block in order, so all such runs leave the same sequence. Nobody sits at the links that they
leave, so from these links on all such runs leave that sequence again; `compile` returns it both
times, and both times it is rendered to the same bytes. -/
theorem schedule_independent {c : Composition} {timing : Timing} {e₀ e : Ensemble}
    (idle : ∀ r ∈ c.links, r.IsIdle) (start : c.ensemble timing = .ok e₀)
    (h : Completes e₀ e) :
    (∃ joins played, e₀.Reference joins played) ∧
    (∀ joins played, e₀.Reference joins played →
      e.sequence.tracks.length = c.blocks.length ∧
        ∀ (i : Nat) (b : Block), c.blocks[i]? = some b → ∃ number p,
          e₀.workers[i]? = some (.start b i number timing) ∧ played[i]? = some p ∧
            e.sequence.tracks[i]? =
              some { id := i, channel := number, events := p.channel.track.events }) ∧
    (∀ e', Completes e₀ e' → e'.sequence = e.sequence) ∧
    (∀ r ∈ e.links, r.IsIdle) ∧
    (∀ e₁ e', ({ c with links := e.links } : Composition).ensemble timing = .ok e₁ →
      Completes e₁ e' → e'.sequence = e.sequence) ∧
    ∀ options : CompileOptions, options.timing = timing →
      c.compile options = .ok e.sequence ∧
        ({ c with links := e.links } : Composition).compile options = .ok e.sequence ∧
        ({ c with links := e.links } : Composition).render options = c.render options := by
  have atRest := atRest_ensemble start idle
  obtain ⟨journal, course⟩ := h.exists_course atRest
  have unfailed := course.unfailed_start
  obtain ⟨joins, played, ref⟩ := course.exists_reference h.finished
  obtain ⟨plan, planned⟩ := course.exists_plan h.finished
  have idle' := course.isIdle_of_finished h.finished
  -- the same composition as the run leaves its links
  have same := course.members_links
  have start' := ensemble_with_links start e.links
  have atRest' := atRest_ensemble start' idle'
  have ref' := ref.with_links same
  have hsequence := ref.sequence_eq atRest h
  refine ⟨⟨joins, played, ref⟩, fun _ _ => tracks_of_completes idle start h, ?_, idle', ?_, ?_⟩
  · intro e' h'
    rw [ref.sequence_eq atRest h', hsequence]
  · intro e₁ e' start₁ h'
    rw [start'] at start₁
    cases start₁
    rw [ref'.sequence_eq atRest' h', hsequence]
  · rintro options rfl
    have hfirst := ref.completes_settle planned atRest unfailed
    have hsecond := ref'.completes_settle (planned.with_links same) atRest' unfailed
    have hcompile : c.compile options = .ok e.sequence := by
      rw [compile_of_completes start hfirst, ref.sequence_eq atRest hfirst, hsequence]
    have hcompile' : ({ c with links := e.links } : Composition).compile options =
        .ok e.sequence := by
      rw [compile_of_completes start' hsecond, ref'.sequence_eq atRest' hsecond, hsequence]
    exact ⟨hcompile, hcompile', render_congr (hcompile'.trans hcompile.symm)⟩

/-- Two blocks of two passes that come to their meeting with different clocks, and play on from
there. -/
def duet : Composition where
  blocks := [
    { name := "lead"
      directive := some { passes := some 2 }
      statements := [
        ⟨⟨1, 1⟩, .playPhrase { melody := ⟨[⟨.pitch .c, .plain⟩]⟩, rhythm := ⟨[.quarter]⟩ }⟩,
        ⟨⟨2, 1⟩, .meet 0⟩,
        ⟨⟨3, 1⟩, .playPhrase { melody := ⟨[⟨.pitch .e, .plain⟩]⟩, rhythm := ⟨[.quarter]⟩ }⟩] },
    { name := "bass"
      directive := some { passes := some 2 }
      statements := [
        ⟨⟨1, 1⟩, .meet 0⟩,
        ⟨⟨2, 1⟩, .playPhrase { melody := ⟨[⟨.pitch .g, .plain⟩]⟩, rhythm := ⟨[.quarter]⟩ }⟩] }]
  links := [{ seats := [{ member := 0 }, { member := 1 }] }]

/-- The second block takes its steps first, as far as it can. -/
theorem schedule_independent_duet :
    ∃ e₀ e, (∀ r ∈ duet.links, r.IsIdle) ∧ duet.ensemble .standard = .ok e₀ ∧ Completes e₀ e ∧
      (∃ joins played, e₀.Reference joins played) ∧ duet.compile {} = .ok e.sequence ∧
      ({ duet with links := e.links } : Composition).compile {} = .ok e.sequence := by
  have idle : ∀ r ∈ duet.links, r.IsIdle := by
    intro r hr
    rw [List.mem_singleton.1 hr]
    exact ⟨nofun, by decide⟩
  have hphases : (duet.ensemble .standard).toOption.map (fun e =>
      (e.takeTurns (List.replicate 11 [1, 0]).flatten).workers.map (·.phase)) =
        some [.finished, .finished] := by
    decide +kernel
  cases start : duet.ensemble .standard with
  | error cause =>
    rw [start] at hphases
    cases hphases
  | ok e₀ =>
    rw [start] at hphases
    have hmap : (e₀.takeTurns (List.replicate 11 [1, 0]).flatten).workers.map (·.phase) = _ :=
      Option.some.inj hphases
    have complete : Completes e₀ (e₀.takeTurns (List.replicate 11 [1, 0]).flatten) := by
      refine ⟨e₀.steps_takeTurns _, fun w hw => ?_⟩
      have hmem := List.mem_map_of_mem (f := (·.phase)) hw
      rw [hmap] at hmem
      simpa using hmem
    obtain ⟨href, -, -, -, -, hcompile⟩ := schedule_independent idle start complete
    obtain ⟨hfirst, hagain, -⟩ := hcompile {} rfl
    exact ⟨e₀, _, idle, rfl, complete, href, hfirst, hagain⟩

end Composition

end MidiScore
