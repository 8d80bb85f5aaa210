import Mathlib.Data.Set.Finite.List
import Mathlib.Order.Lattice.Nat
import MidiScore.Proofs.Composition.Rehearsal
import MidiScore.Proofs.Composition.Submission

/-!
# References

A reference is a timetable with which the rehearsals of all blocks agree: told when their meetings
end, the blocks come to each meeting with clocks of which that end is the latest. Every run in which
all workers finish leaves one. And every run keeps to it, whatever the order of its steps: no worker
fails, and one that finishes has played its rehearsal.
-/

namespace MidiScore

open Assembly (note note_self)

/-- What came of a rehearsal. -/
structure Rehearsal where
  /-- The links to which the block came as a member, each with its clock. -/
  noted : List (Nat × Nat)
  channel : Channel

/-- The journal of the rehearsals of several blocks. -/
def Journal.ofRehearsals (played : List Rehearsal) : Journal :=
  fun i => (played[i]?).elim [] (·.noted)

theorem Journal.isGreatest_sSup {journal : Journal} {members : List Nat} {l k : Nat}
    (hne : members ≠ []) (came : ∀ m ∈ members, k < (journal.callsAt l m).length) :
    IsGreatest (journal.timesAt members l k) (sSup (journal.timesAt members l k)) := by
  have hbound : BddAbove (journal.timesAt members l k) := by
    apply Set.Finite.bddAbove
    refine (List.finite_toSet (members.filterMap fun m => (journal.callsAt l m)[k]?)).subset ?_
    rintro t ⟨m, hm, ht⟩
    exact List.mem_filterMap.2 ⟨m, hm, ht⟩
  have hne' : (journal.timesAt members l k).Nonempty := by
    obtain ⟨m, hm⟩ := List.exists_mem_of_ne_nil _ hne
    exact ⟨_, m, hm, List.getElem?_eq_getElem (came m hm)⟩
  exact ⟨Nat.sSup_mem hne' hbound, fun t ht => le_csSup hbound ht⟩

/-- There is a timetable for every journal. -/
theorem Journal.exists_timetable (journal : Journal) {links : List Rendezvous}
    (manned : ∀ r ∈ links, r.members ≠ []) : ∃ joins : Timetable, joins.Agrees links journal := by
  refine ⟨fun l k => sSup (journal.timesAt ((links[l]?).elim [] (·.members)) l k), ?_⟩
  intro l k r found came
  dsimp only
  rw [found]
  exact Journal.isGreatest_sSup (manned r (List.mem_of_getElem? found)) came

theorem Timetable.Agrees.with_links {joins : Timetable} {links links' : List Rendezvous}
    {journal : Journal} (h : joins.Agrees links journal)
    (same : links'.map (·.members) = links.map (·.members)) : joins.Agrees links' journal := by
  intro l k r found came
  have hteam := congrArg (·[l]?) same
  simp only [List.getElem?_map, found] at hteam
  obtain ⟨r₀, found₀, hmembers⟩ := Option.map_eq_some_iff.1 hteam.symm
  replace hmembers : r₀.members = r.members := hmembers
  rw [← hmembers] at came ⊢
  exact h l k r₀ found₀ came

namespace Ensemble

variable {e e' e₀ : Ensemble} {i : Nat} {w : Worker} {journal : Journal} {joins : Timetable}
  {played : List Rehearsal}

/-- All blocks are played alone, one after the other, and each meeting ends with the latest clock
with which a member comes to it. -/
structure Reference (e₀ : Ensemble) (joins : Timetable) (played : List Rehearsal) : Prop where
  length : played.length = e₀.workers.length
  plays : ∀ (i : Nat) (w : Worker) (p : Rehearsal), e₀.workers[i]? = some w →
    played[i]? = some p →
      w.rehearse joins (isMemberAt e₀.links i) [] w.channel = .ok p.noted p.channel
  agrees : joins.Agrees e₀.links (.ofRehearsals played)

theorem Reference.with_links (h : Reference e₀ joins played) {links : List Rendezvous}
    (same : links.map (·.members) = e₀.links.map (·.members)) :
    Reference { e₀ with links } joins played := by
  refine ⟨h.length, fun i w p hi hp => ?_, h.agrees.with_links same⟩
  rw [isMemberAt_congr same]
  exact h.plays i w p hi hp

/-- A run in which all workers finish leaves a reference. -/
theorem Course.exists_reference (course : Course e₀ journal e)
    (finished : ∀ w ∈ e.workers, w.phase = .finished) :
    ∃ joins played, Reference e₀ joins played := by
  have manned : ∀ r ∈ e₀.links, r.members ≠ [] := by
    intro r hr hnil
    exact (course.atRest.idle r hr).1 (List.map_eq_nil_iff.1 hnil)
  obtain ⟨joins, agrees⟩ := journal.exists_timetable manned
  have h := course.rehearsed agrees
  refine ⟨joins, e.workers.mapIdx fun i w => ⟨journal i, w.channel⟩, ?_, ?_, ?_⟩
  · rw [List.length_mapIdx, course.length_workers]
  · intro i w₀ p hi₀ hp
    rw [List.getElem?_mapIdx] at hp
    obtain ⟨w, hi, rfl⟩ := Option.map_eq_some_iff.1 hp
    obtain ⟨w₀', hi₀', hsame⟩ := h.same i w hi
    rw [hi₀] at hi₀'
    cases hi₀'
    rw [← hsame, Worker.rehearse_of_finished (finished w (List.mem_of_getElem? hi))]
    rfl
  · have hjournal : Journal.ofRehearsals (e.workers.mapIdx fun i w => ⟨journal i, w.channel⟩) =
        journal := by
      funext i
      unfold Journal.ofRehearsals
      rw [List.getElem?_mapIdx]
      cases hi : e.workers[i]? with
      | none => exact (h.absent i hi).symm
      | some w => rfl
    rw [hjournal]
    exact agrees

/-! ## Runs keep to a reference -/

/-- What is left to do of a worker leads to its rehearsal. -/
theorem Reference.exists_played (ref : Reference e₀ joins played)
    (h : Rehearsed joins e₀ journal e) (hi : e.workers[i]? = some w) :
    ∃ p, played[i]? = some p ∧
      w.rehearse joins (isMemberAt e₀.links i) (journal i) w.channel = .ok p.noted p.channel := by
  obtain ⟨w₀, hi₀, hsame⟩ := h.same i w hi
  have hlt := (List.getElem?_eq_some_iff.1 hi₀).1
  rw [← ref.length] at hlt
  have hp := List.getElem?_eq_getElem hlt
  exact ⟨_, hp, hsame.trans (ref.plays i w₀ _ hi₀ hp)⟩

/-- A worker that has finished has played its rehearsal. -/
theorem Reference.played_of_finished (ref : Reference e₀ joins played)
    (h : Rehearsed joins e₀ journal e) (hi : e.workers[i]? = some w)
    (finished : w.phase = .finished) : played[i]? = some ⟨journal i, w.channel⟩ := by
  obtain ⟨⟨noted, channel⟩, hp, hplay⟩ := ref.exists_played h hi
  rw [Worker.rehearse_of_finished finished] at hplay
  cases hplay
  exact hp

theorem Reference.journal_prefix (ref : Reference e₀ joins played)
    (h : Rehearsed joins e₀ journal e) (i : Nat) : journal i <+: Journal.ofRehearsals played i := by
  cases hi : e.workers[i]? with
  | none =>
    rw [h.absent i hi]
    exact List.nil_prefix
  | some w =>
    obtain ⟨p, hp, hplay⟩ := ref.exists_played h hi
    unfold Journal.ofRehearsals
    rw [hp]
    exact Worker.prefix_of_rehearse hplay

/-- The timetable also agrees with the journal after the next step. -/
theorem Reference.agrees_next (ref : Reference e₀ joins played) (course : Course e₀ journal e)
    (h : Rehearsed joins e₀ journal e) (i : Nat) :
    joins.Agrees e₀.links ((e.arrival? i).elim journal (note journal i)) := by
  apply ref.agrees.of_prefix
  intro j
  by_cases hj : j = i
  · subst hj
    cases harrival : e.arrival? j with
    | none => exact ref.journal_prefix h j
    | some entry =>
      obtain ⟨l, clock⟩ := entry
      obtain ⟨w, s, rest, r, hi, ready, todo, meet, found, hmember, rfl⟩ := of_arrival? harrival
      rw [course.numbered j w hi, course.isMember_eq found] at hmember
      obtain ⟨p, hp, hplay⟩ := ref.exists_played h hi
      rw [Worker.rehearse_of_meet 0 ready todo meet hmember] at hplay
      show note journal j _ j <+: _
      unfold Journal.ofRehearsals
      rw [hp, note_self]
      exact Worker.prefix_of_rehearse hplay
  · rw [Journal.elim_of_ne hj]
    exact ref.journal_prefix h j

/-- Nothing makes a worker fail, as nothing made its rehearsal fail. -/
theorem Reference.not_fault (ref : Reference e₀ joins played) (course : Course e₀ journal e)
    (h : Rehearsed joins e₀ journal e) (hi : e.workers[i]? = some w) : ¬ e.Fault w := by
  obtain ⟨p, -, hplay⟩ := ref.exists_played h hi
  have agrees := ref.agrees_next course h i
  intro fault
  cases fault with
  | enter ready done passes refused =>
    rw [Worker.rehearse_of_passes ready done passes, ChannelM.bind_of_error refused] at hplay
    cases hplay
  | flush ready done passes refused =>
    rw [Worker.rehearse_of_done ready done passes, ChannelM.bind_of_error refused] at hplay
    cases hplay
  | submit ready refused =>
    have hlt := (List.getElem?_eq_some_iff.1 hi).1
    have hle := Sequence.le_of_submit_error refused
    rw [course.submitted.length_slots, course.atRest.slots, ← course.length_workers,
      course.numbered i w hi] at hle
    omega
  | operate ready todo operation refused =>
    rw [Worker.rehearse_of_operation ready todo operation, ChannelM.bind_of_error refused] at hplay
    cases hplay
  | release ready todo meet found arrival refused =>
    have hmember := (Rendezvous.of_arrive_released arrival).1
    rw [arrival?_of_meet hi ready todo meet found,
      if_pos (by simpa [Rendezvous.isMember] using hmember)] at agrees
    rw [course.rehearse_of_release hi ready todo meet found arrival agrees,
      ChannelM.bind_of_error refused] at hplay
    cases hplay
  | wake waiting todo found woken refused =>
    have before := ref.agrees.of_prefix (ref.journal_prefix h)
    rw [course.rehearse_of_wake hi waiting todo found woken before,
      ChannelM.bind_of_error refused] at hplay
    cases hplay

/-- Without a fault no worker fails. -/
theorem Unfailed.move {arrival : Option (Nat × Nat)} (h : e.Unfailed)
    (hm : Move e i w arrival e') (sound : ¬ e.Fault w) : e'.Unfailed := by
  have hset : ∀ w', e'.workers = e.workers.set i w' → ¬ w'.HasFailed → e'.Unfailed := by
    intro w' he hw v hv
    rw [he] at hv
    rcases List.mem_or_eq_of_mem_set hv with hv | rfl
    · exact h v hv
    · exact hw
  cases hm with
  | beginPass ready => exact hset _ rfl (Worker.not_hasFailed_of_ready ready)
  | pass ready => exact hset _ rfl (Worker.not_hasFailed_of_ready ready)
  | operate | release | wake => exact hset _ rfl (Worker.not_hasFailed_of_ready rfl)
  | wait => exact hset _ rfl (Worker.not_hasFailed_of_waiting rfl)
  | finish => exact hset _ rfl (Worker.not_hasFailed_of_finished rfl)
  | fail fault => exact absurd fault sound

/-- Every run keeps to a reference: no worker fails, and each plays its rehearsal. -/
theorem Reference.rehearsed (ref : Reference e₀ joins played) (atRest : e₀.AtRest)
    (unfailed : e₀.Unfailed) (run : Run e₀ journal e) :
    e.Unfailed ∧ Rehearsed joins e₀ journal e := by
  induction run with
  | start => exact ⟨unfailed, rehearsed_start joins e₀⟩
  | @step journal e e' i run taken ih =>
    obtain ⟨before, h⟩ := ih
    have course : Course e₀ journal e := ⟨atRest, run, before⟩
    obtain ⟨w, hi, hm⟩ := move_of_step? taken
    have after := before.move hm (ref.not_fault course h hi)
    exact ⟨after, h.move course after hi hm (ref.agrees_next course h i)⟩

end Ensemble

end MidiScore
