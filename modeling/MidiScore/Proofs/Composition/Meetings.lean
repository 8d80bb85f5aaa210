import MidiScore.Proofs.Composition.Steps
import MidiScore.Proofs.Rendezvous.Rounds

/-!
# The meetings of a run

A run keeps a journal of the links to which each worker came as a member, with its clock then. Seen
from one link a run is a run of an assembly (`exists_assembly`), so what is known about rounds holds
of every link of every reachable ensemble.
-/

namespace MidiScore

open Assembly (note note_self note_of_ne)

/-- The links to which each worker came, each with the clock of the worker, in order. -/
abbrev Journal := Nat → List (Nat × Nat)

/-- The clocks with which worker `i` came to a link. -/
def Journal.callsAt (journal : Journal) (link i : Nat) : List Nat :=
  ((journal i).filter (·.1 = link)).map (·.2)

/-- The links to which worker `i` came. -/
def Journal.visited (journal : Journal) (i : Nat) : List Nat :=
  (journal i).map (·.1)

theorem Journal.visited_note (journal : Journal) (i link clock : Nat) :
    Journal.visited (note journal i (link, clock)) i = journal.visited i ++ [link] := by
  unfold Journal.visited
  rw [note_self, List.map_append]
  rfl

theorem Journal.elim_of_ne {journal : Journal} {arrival : Option (Nat × Nat)} {i j : Nat}
    (h : j ≠ i) : (arrival.elim journal (note journal i)) j = journal j := by
  cases arrival with
  | none => rfl
  | some entry => exact note_of_ne h

theorem Journal.visited_elim_of_ne {journal : Journal} {arrival : Option (Nat × Nat)} {i j : Nat}
    (h : j ≠ i) :
    Journal.visited (arrival.elim journal (note journal i)) j = journal.visited j := by
  unfold Journal.visited
  rw [Journal.elim_of_ne h]

/-- A journal is only added to. -/
theorem Journal.prefix_elim (journal : Journal) (arrival : Option (Nat × Nat)) (i j : Nat) :
    journal j <+: (arrival.elim journal (note journal i)) j := by
  by_cases hj : j = i
  · subst hj
    cases arrival with
    | none => exact List.prefix_rfl
    | some entry =>
      show _ <+: note journal j entry j
      rw [note_self]
      exact List.prefix_append ..
  · have hsame : (arrival.elim journal (note journal i)) j = journal j := Journal.elim_of_ne hj
    exact hsame.symm ▸ List.prefix_rfl

theorem Journal.length_callsAt (journal : Journal) (link i : Nat) :
    (journal.callsAt link i).length = (journal i).countP (·.1 = link) := by
  unfold Journal.callsAt
  rw [List.length_map, List.countP_eq_length_filter]

theorem Journal.count_visited (journal : Journal) (link i : Nat) :
    (journal.visited i).count link = (journal.callsAt link i).length := by
  unfold Journal.visited
  rw [Journal.length_callsAt, List.count, List.countP_map]
  rfl

theorem Journal.callsAt_note (journal : Journal) (i link l clock : Nat) :
    Journal.callsAt (note journal i (link, clock)) l =
      if link = l then note (journal.callsAt l) i clock else journal.callsAt l := by
  funext j
  unfold Journal.callsAt
  by_cases hj : j = i
  · subst hj
    split
    · next hl => simp [hl]
    · next hl => simp [hl]
  · rw [note_of_ne hj]
    split
    · rw [note_of_ne hj]
    · rfl

/-- The generation whose end a worker waits for at a link. -/
def Worker.waitsAt (w : Worker) (link : Nat) : Option Nat :=
  match w.phase with
  | .waiting l generation => if l = link then some generation else none
  | _ => none

theorem Worker.waitsAt_of_phase {w : Worker} {link : Nat} (h : ∀ l g, w.phase ≠ .waiting l g) :
    w.waitsAt link = none := by
  unfold Worker.waitsAt
  split
  · next l g hw => exact absurd hw (h l g)
  · rfl

theorem Worker.phase_of_waitsAt {w : Worker} {link generation : Nat}
    (h : w.waitsAt link = some generation) : w.phase = .waiting link generation := by
  unfold Worker.waitsAt at h
  split at h
  · next l g hw =>
    split at h
    · next hl =>
      cases h
      rw [hw, hl]
    · cases h
  · cases h

namespace Ensemble

variable {e e' e₀ : Ensemble} {i : Nat} {w w' : Worker}

/-- The generation whose end worker `i` waits for at a link. -/
def inside (e : Ensemble) (link i : Nat) : Option Nat :=
  (e.workers[i]?).bind (·.waitsAt link)

theorem inside_eq {link : Nat} (hi : e.workers[i]? = some w) :
    e.inside link i = w.waitsAt link := by
  unfold inside
  rw [hi]
  rfl

theorem inside_set {link : Nat} (hi : e.workers[i]? = some w)
    (he : e'.workers = e.workers.set i w') :
    e'.inside link = Function.update (e.inside link) i (w'.waitsAt link) := by
  unfold inside
  rw [he]
  exact bind_getElem?_set hi w' (·.waitsAt link)

/-- Workers take steps in any order, and the journal is kept. -/
inductive Run (e₀ : Ensemble) : Journal → Ensemble → Prop where
  | start : Run e₀ (fun _ => []) e₀
  | step {journal : Journal} {e e' : Ensemble} {i : Nat} (run : Run e₀ journal e)
      (taken : e.step? i = some e') :
      Run e₀ ((e.arrival? i).elim journal (note journal i)) e'

theorem exists_run (h : Steps e₀ e) : ∃ journal, Run e₀ journal e := by
  induction h with
  | refl => exact ⟨_, .start⟩
  | tail _ hstep ih =>
    obtain ⟨journal, run⟩ := ih
    obtain ⟨i, taken⟩ := hstep
    exact ⟨_, run.step taken⟩

/-- No worker has failed. -/
def Unfailed (e : Ensemble) : Prop :=
  ∀ w ∈ e.workers, ¬ w.HasFailed

/-- A worker that has failed takes no step, so none had failed before. -/
theorem Unfailed.of_move {arrival : Option (Nat × Nat)} (h : e'.Unfailed)
    (hi : e.workers[i]? = some w) (hm : Move e i w arrival e') : e.Unfailed := by
  have hrest : ∀ w', e'.workers = e.workers.set i w' → ¬ w.HasFailed → e.Unfailed := by
    intro w' he hw v hv
    obtain ⟨j, hj⟩ := List.mem_iff_getElem?.1 hv
    by_cases hij : i = j
    · subst hij
      rw [hi] at hj
      cases hj
      exact hw
    · rw [← List.getElem?_set_ne hij, ← he] at hj
      exact h v (List.mem_of_getElem? hj)
  cases hm with
  | beginPass ready => exact hrest _ rfl (Worker.not_hasFailed_of_ready ready)
  | finish ready => exact hrest _ rfl (Worker.not_hasFailed_of_ready ready)
  | operate ready => exact hrest _ rfl (Worker.not_hasFailed_of_ready ready)
  | pass ready => exact hrest _ rfl (Worker.not_hasFailed_of_ready ready)
  | wait ready => exact hrest _ rfl (Worker.not_hasFailed_of_ready ready)
  | release ready => exact hrest _ rfl (Worker.not_hasFailed_of_ready ready)
  | wake waiting => exact hrest _ rfl (Worker.not_hasFailed_of_waiting waiting)
  | fail fault => exact hrest _ rfl fault.active

/-- Worker `i` drives output `i`. -/
def Numbered (e : Ensemble) : Prop :=
  ∀ (i : Nat) (w : Worker), e.workers[i]? = some w → w.output = i

/-- Nobody has begun or sits, worker `i` drives output `i`, and each has a slot for its track. -/
structure AtRest (e : Ensemble) : Prop where
  numbered : e.Numbered
  slots : e.sequence.slots.length = e.workers.length
  fresh : ∀ w ∈ e.workers, w.phase = .ready ∨ w.HasFailed
  idle : ∀ r ∈ e.links, r.IsIdle

/-- A run without failure from an ensemble at rest. -/
structure Course (e₀ : Ensemble) (journal : Journal) (e : Ensemble) : Prop where
  atRest : e₀.AtRest
  run : Run e₀ journal e
  unfailed : e.Unfailed

/-- What holds at the start and is kept by every move of a worker holds in every run without
failure. -/
theorem Course.induction {P : Journal → Ensemble → Prop} (start : P (fun _ => []) e₀)
    (move : ∀ (journal : Journal) (e e' : Ensemble) (i : Nat) (w : Worker)
      (arrival : Option (Nat × Nat)), Course e₀ journal e → P journal e → e'.Unfailed →
      e.workers[i]? = some w → Move e i w arrival e' →
      P (arrival.elim journal (note journal i)) e')
    {journal : Journal} (course : Course e₀ journal e) : P journal e := by
  obtain ⟨atRest, run, unfailed⟩ := course
  induction run with
  | start => exact start
  | step run taken ih =>
    obtain ⟨w, hi, hm⟩ := move_of_step? taken
    have before := unfailed.of_move hi hm
    exact move _ _ _ _ w _ ⟨atRest, run, before⟩ (ih before) unfailed hi hm

theorem Unfailed.false_of_set (h : e'.Unfailed) (hi : e.workers[i]? = some w)
    (he : e'.workers = e.workers.set i w') (failed : w'.HasFailed) : False := by
  refine h w' ?_ failed
  rw [he]
  exact List.mem_of_getElem? (List.getElem?_set_self (List.getElem?_eq_some_iff.1 hi).1)

/-- A move changes the worker that makes it, but not its block or output. -/
theorem Move.exists_set {arrival : Option (Nat × Nat)} (hm : Move e i w arrival e')
    (unfailed : e'.Unfailed) (hi : e.workers[i]? = some w) :
    ∃ w' : Worker, e'.workers = e.workers.set i w' ∧ w'.output = w.output ∧
      w'.block = w.block := by
  cases hm with
  | fail _ failed => exact (unfailed.false_of_set hi rfl failed).elim
  | _ => exact ⟨_, rfl, rfl, rfl⟩

theorem Course.length_workers {journal : Journal} (course : Course e₀ journal e) :
    e.workers.length = e₀.workers.length := by
  refine course.induction (P := fun _ e => e.workers.length = e₀.workers.length) rfl ?_
  intro journal e e' i w arrival _ h unfailed hi hm
  obtain ⟨w', he, -⟩ := hm.exists_set unfailed hi
  rw [he, List.length_set, h]

theorem Numbered.move {arrival : Option (Nat × Nat)} (h : e.Numbered) (unfailed : e'.Unfailed)
    (hi : e.workers[i]? = some w) (hm : Move e i w arrival e') : e'.Numbered := by
  obtain ⟨w', he, hw, -⟩ := hm.exists_set unfailed hi
  intro j v hv
  rw [he] at hv
  rcases getElem?_set_cases hv with ⟨rfl, rfl⟩ | ⟨-, hv⟩
  · rw [hw]
    exact h j w hi
  · exact h j v hv

/-- The ensemble and its journal as they are seen from a link. -/
structure SeenAt (e : Ensemble) (journal : Journal) (l : Nat) (a : Assembly) : Prop where
  link : e.links[l]? = some a.link
  inside : a.inside = e.inside l
  calls : a.calls = journal.callsAt l

section SeenAt

variable {journal : Journal} {l : Nat} {a : Assembly}

/-- What does not concern a link is not seen from it. -/
theorem SeenAt.of_quiet {journal' : Journal} (h : e.SeenAt journal l a)
    (hi : e.workers[i]? = some w) (workers : e'.workers = e.workers.set i w')
    (links : e'.links[l]? = e.links[l]?) (stays : w'.waitsAt l = w.waitsAt l)
    (calls : journal'.callsAt l = journal.callsAt l) : e'.SeenAt journal' l a := by
  refine ⟨links.trans h.link, ?_, h.calls.trans calls.symm⟩
  rw [h.inside, inside_set hi workers, stays]
  exact (Function.update_eq_self_iff.2 (inside_eq hi).symm).symm

/-- Nor is it seen that a worker comes to another link. -/
theorem SeenAt.of_elsewhere {link clock : Nat} {r : Rendezvous} (h : e.SeenAt journal l a)
    (hl : link ≠ l) (hi : e.workers[i]? = some w) (workers : e'.workers = e.workers.set i w')
    (links : e'.links = e.links.set link r) (stays : w'.waitsAt l = w.waitsAt l) :
    e'.SeenAt (note journal i (link, clock)) l a := by
  refine h.of_quiet hi workers ?_ stays ?_
  · rw [links, List.getElem?_set_ne hl]
  · rw [Journal.callsAt_note, if_neg hl]

/-- A worker comes to the link, and waits there or goes on. -/
theorem SeenAt.of_arrival {clock : Nat} {link : Rendezvous} {inside : Nat → Option Nat}
    {returns : Nat → List Nat} (h : e.SeenAt journal l a) (hi : e.workers[i]? = some w)
    (workers : e'.workers = e.workers.set i w') (links : e'.links = e.links.set l link)
    (hinside : inside = Function.update a.inside i (w'.waitsAt l)) :
    e'.SeenAt (note journal i (l, clock)) l
      { link, inside, calls := note a.calls i clock, returns } := by
  refine ⟨?_, ?_, ?_⟩
  · rw [links]
    exact List.getElem?_set_self (List.getElem?_eq_some_iff.1 h.link).1
  · rw [inside_set hi workers, ← h.inside]
    exact hinside
  · rw [Journal.callsAt_note, if_pos rfl, h.calls]

/-- A move of a worker is a step of each assembly, or none. -/
theorem SeenAt.move {arrival : Option (Nat × Nat)} (h : e.SeenAt journal l a)
    (numbered : e.Numbered) (unfailed : e'.Unfailed) (hi : e.workers[i]? = some w)
    (hm : Move e i w arrival e') :
    ∃ a', Assembly.Steps a a' ∧ e'.SeenAt (arrival.elim journal (note journal i)) l a' := by
  have hout := numbered i w hi
  have hin : a.inside i = w.waitsAt l := by rw [h.inside, inside_eq hi]
  have hready : w.phase = .ready → w.waitsAt l = none :=
    fun ready => Worker.waitsAt_of_phase (Worker.not_waiting_of_ready ready)
  cases hm with
  | beginPass ready =>
    refine ⟨a, .refl, h.of_quiet hi rfl rfl ?_ rfl⟩
    exact rfl
  | finish ready =>
    exact ⟨a, .refl, h.of_quiet hi rfl rfl (hready ready).symm rfl⟩
  | operate ready =>
    exact ⟨a, .refl, h.of_quiet hi rfl rfl (hready ready).symm rfl⟩
  | @pass s rest link r r' ready todo meet found arrival =>
    obtain ⟨-, rfl⟩ := Rendezvous.of_arrive_stranger arrival
    refine ⟨a, .refl, h.of_quiet hi rfl ?_ rfl rfl⟩
    show (e.links.set link r')[l]? = e.links[l]?
    by_cases hl : link = l
    · subst hl
      rw [List.getElem?_set_self (List.getElem?_eq_some_iff.1 found).1, found]
    · rw [List.getElem?_set_ne hl]
  | @wait s rest link generation r r' ready todo meet found arrival =>
    have hnone := hready ready
    by_cases hl : link = l
    · subst hl
      have hr : a.link = r := Option.some.inj (h.link.symm.trans found)
      rw [hout, ← hr] at arrival
      refine ⟨_, .single (.wait (hin.trans hnone) arrival), h.of_arrival hi rfl rfl ?_⟩
      simp [Worker.waitsAt]
    · refine ⟨a, .refl, h.of_elsewhere hl hi rfl rfl ?_⟩
      rw [hnone]
      simp [Worker.waitsAt, hl]
  | @release s rest link joinTime t r r' channel ready todo meet found arrival leapt =>
    have hnone := hready ready
    by_cases hl : link = l
    · subst hl
      have hr : a.link = r := Option.some.inj (h.link.symm.trans found)
      have outside := hin.trans hnone
      rw [hout, ← hr] at arrival
      refine ⟨_, .single (.release outside arrival), h.of_arrival hi rfl rfl ?_⟩
      exact (Function.update_eq_self_iff.2 outside.symm).symm
    · exact ⟨a, .refl, h.of_elsewhere hl hi rfl rfl hnone.symm⟩
  | @wake s rest link generation joinTime t r channel waiting todo found woken leapt =>
    by_cases hl : link = l
    · subst hl
      have hr : a.link = r := Option.some.inj (h.link.symm.trans found)
      have waits : a.inside i = some generation := by
        rw [hin]
        simp [Worker.waitsAt, waiting]
      rw [← hr] at woken
      refine ⟨_, .single (.wake waits woken), h.link, ?_, h.calls⟩
      rw [inside_set hi rfl, h.inside]
      rfl
    · refine ⟨a, .refl, h.of_quiet hi rfl rfl ?_ rfl⟩
      simp [Worker.waitsAt, waiting, hl]
  | fail _ failed => exact (unfailed.false_of_set hi rfl failed).elim

end SeenAt

theorem AtRest.not_waiting (h : e.AtRest) (hi : e.workers[i]? = some w) (l g : Nat) :
    w.phase ≠ .waiting l g := by
  rcases h.fresh w (List.mem_of_getElem? hi) with ready | ⟨cause, hf⟩
  · exact Worker.not_waiting_of_ready ready l g
  · rw [hf]
    nofun

theorem AtRest.not_finished (h : e.AtRest) (hi : e.workers[i]? = some w) :
    w.phase ≠ .finished := by
  rcases h.fresh w (List.mem_of_getElem? hi) with ready | ⟨cause, hf⟩
  · exact Worker.not_finished_of_ready ready
  · rw [hf]
    nofun

theorem AtRest.inside_eq (h : e.AtRest) (l : Nat) : e.inside l = fun _ => none := by
  funext i
  unfold Ensemble.inside
  cases hi : e.workers[i]? with
  | none => rfl
  | some w => exact Worker.waitsAt_of_phase (h.not_waiting hi)

variable {journal : Journal}

theorem Course.numbered (course : Course e₀ journal e) : e.Numbered := by
  refine course.induction (P := fun _ e => e.Numbered) course.atRest.numbered ?_
  intro journal e e' i w arrival _ h unfailed hi hm
  exact h.move unfailed hi hm

/-- Seen from a link, a run without failure is a run of an assembly, and so it is in some round. -/
theorem Course.exists_round (course : Course e₀ journal e) {l : Nat} {r₀ : Rendezvous}
    (found₀ : e₀.links[l]? = some r₀) :
    ∃ a n, Assembly.InRound a n ∧ e.SeenAt journal l a ∧ a.link.members = r₀.members := by
  have atRest := course.atRest
  have hseen : ∃ a, Assembly.Steps { link := r₀ } a ∧ e.SeenAt journal l a := by
    refine course.induction
      (P := fun journal e => ∃ a, Assembly.Steps { link := r₀ } a ∧ e.SeenAt journal l a)
      ⟨_, .refl, found₀, (atRest.inside_eq l).symm, rfl⟩ ?_
    rintro journal e e' i w arrival course ⟨a, hsteps, h⟩ unfailed hi hm
    obtain ⟨a', hsteps', h'⟩ := h.move course.numbered unfailed hi hm
    exact ⟨a', hsteps.trans hsteps', h'⟩
  obtain ⟨a, hsteps, h⟩ := hseen
  obtain ⟨n, round⟩ :=
    (Assembly.inRound_start (atRest.idle r₀ (List.mem_of_getElem? found₀))).steps hsteps
  exact ⟨a, n, round, h, Assembly.members_steps hsteps⟩

theorem Course.length_links (course : Course e₀ journal e) :
    e.links.length = e₀.links.length := by
  refine course.induction (P := fun _ e => e.links.length = e₀.links.length) rfl ?_
  intro journal e e' i w arrival _ h unfailed hi hm
  cases hm with
  | fail _ failed => exact (unfailed.false_of_set hi rfl failed).elim
  | pass | wait | release => exact (List.length_set ..).trans h
  | _ => exact h

/-- The round in which a link of a reached ensemble is. -/
theorem Course.exists_round_at (course : Course e₀ journal e) {l : Nat} {r : Rendezvous}
    (found : e.links[l]? = some r) :
    ∃ a n r₀, e₀.links[l]? = some r₀ ∧ Assembly.InRound a n ∧ e.SeenAt journal l a ∧
      a.link = r ∧ r.members = r₀.members := by
  have hlt := (List.getElem?_eq_some_iff.1 found).1
  rw [course.length_links] at hlt
  have found₀ := List.getElem?_eq_getElem hlt
  obtain ⟨a, n, round, hseen, hmembers⟩ := course.exists_round found₀
  have hlink : a.link = r := Option.some.inj (hseen.link.symm.trans found)
  exact ⟨a, n, _, found₀, round, hseen, hlink, hlink ▸ hmembers⟩

/-- Whether an output is a member of a link. -/
def isMemberAt (links : List Rendezvous) (output l : Nat) : Bool :=
  (links[l]?).any (·.isMember output)

theorem isMemberAt_iff {links : List Rendezvous} {output l : Nat} :
    isMemberAt links output l ↔ ∃ r, links[l]? = some r ∧ output ∈ r.members := by
  unfold isMemberAt
  rw [Option.any_eq_true]
  simp [Rendezvous.isMember]

/-- Who is a member depends on nothing else about the links. -/
theorem isMemberAt_congr {links links' : List Rendezvous}
    (same : links.map (·.members) = links'.map (·.members)) :
    isMemberAt links = isMemberAt links' := by
  have hteams : ∀ (links : List Rendezvous) (output l : Nat),
      isMemberAt links output l = ((links.map (·.members))[l]?).any (·.contains output) := by
    intro links output l
    rw [List.getElem?_map, Option.any_map]
    rfl
  funext output l
  rw [hteams, hteams, same]

theorem Course.members_links (course : Course e₀ journal e) :
    e.links.map (·.members) = e₀.links.map (·.members) := by
  apply List.ext_getElem?
  intro l
  rw [List.getElem?_map, List.getElem?_map]
  cases found : e.links[l]? with
  | none =>
    rw [List.getElem?_eq_none_iff, course.length_links] at found
    rw [List.getElem?_eq_none found]
  | some r =>
    obtain ⟨_, _, r₀, found₀, -, -, -, hmembers⟩ := course.exists_round_at found
    rw [found₀]
    exact congrArg some hmembers

/-- When all workers have finished nobody sits at a link any more. -/
theorem Course.isIdle_of_finished (course : Course e₀ journal e)
    (finished : ∀ w ∈ e.workers, w.phase = .finished) : ∀ r ∈ e.links, r.IsIdle := by
  intro r hr
  obtain ⟨l, found⟩ := List.mem_iff_getElem?.1 hr
  obtain ⟨a, n, _, -, round, seen, rfl, -⟩ := course.exists_round_at found
  have outside : ∀ id, a.inside id = none := by
    intro id
    rw [seen.inside]
    refine Option.bind_eq_none_iff.2 fun w hi => Worker.waitsAt_of_phase fun l g hw => ?_
    simp [finished w (List.mem_of_getElem? hi)] at hw
  refine ⟨?_, fun seat hseat => ?_⟩
  · obtain ⟨seat, hseat, -⟩ := round.waitsForOne
    exact List.ne_nil_of_mem hseat
  · cases round.stance seat hseat with
    | away arrived => exact arrived
    | seated _ waiting => simp [outside] at waiting
    | leaving arrived => exact arrived

/-- A link keeps its members. -/
theorem Course.isMember_eq (course : Course e₀ journal e) {l : Nat} {r : Rendezvous}
    (found : e.links[l]? = some r) (output : Nat) :
    r.isMember output = isMemberAt e₀.links output l := by
  obtain ⟨_, _, r₀, found₀, -, -, -, hmembers⟩ := course.exists_round_at found
  unfold isMemberAt Rendezvous.isMember
  rw [found₀, hmembers]
  rfl

theorem Course.isMemberAt_iff (course : Course e₀ journal e) (hi : e.workers[i]? = some w)
    {l : Nat} {r : Rendezvous} (found : e.links[l]? = some r) :
    isMemberAt e₀.links i l = true ↔ w.output ∈ r.members := by
  rw [course.numbered i w hi, ← course.isMember_eq found]
  simp [Rendezvous.isMember]

end Ensemble

theorem Composition.atRest_ensemble {c : Composition} {timing : Timing} {e : Ensemble}
    (h : c.ensemble timing = .ok e) (idle : ∀ r ∈ c.links, r.IsIdle) : e.AtRest := by
  refine ⟨?_, ?_, ?_, ?_⟩
  · intro i w hi
    obtain ⟨b, number, -, -, rfl⟩ := exists_block_of_ensemble h hi
    rfl
  · rw [length_slots_ensemble h, length_workers_ensemble h]
  · intro w hw
    obtain ⟨i, hi⟩ := List.mem_iff_getElem?.1 hw
    obtain ⟨b, number, -, -, rfl⟩ := exists_block_of_ensemble h hi
    unfold Worker.start Worker.HasFailed
    dsimp only
    split
    · exact .inl rfl
    · exact .inr ⟨_, rfl⟩
  · rw [links_ensemble h]
    exact idle

end MidiScore
