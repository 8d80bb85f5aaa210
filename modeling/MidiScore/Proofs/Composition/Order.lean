import MidiScore.Proofs.Composition.Plan

/-!
# The order of the meetings of a run

While a run goes on, the meetings that are over stand in an order, and every worker was at those of
which it is a member and at the one at which it is held (`Ensemble.Met`). When all have finished
nobody is held, so the order is a plan.
-/

namespace MidiScore

open Assembly (note note_of_ne)

namespace Worker

variable {w : Worker}

/-- The link at which a worker is held, if there is one. -/
def heldBy (generationAt : Nat → Option Nat) (w : Worker) : List Nat :=
  match w.phase with
  | .waiting l generation => if generationAt l = some generation then [l] else []
  | _ => []

theorem heldBy_of_not_waiting {generationAt : Nat → Option Nat}
    (h : ∀ l g, w.phase ≠ .waiting l g) : w.heldBy generationAt = [] := by
  unfold heldBy
  split
  · next l g hw => exact absurd hw (h l g)
  · rfl

theorem heldBy_of_waiting {generationAt : Nat → Option Nat} {l generation : Nat}
    (h : w.phase = .waiting l generation) :
    w.heldBy generationAt = if generationAt l = some generation then [l] else [] := by
  unfold heldBy
  rw [h]

end Worker

namespace Ensemble

variable {e e' e₀ : Ensemble} {i : Nat} {w w' : Worker} {journal : Journal}

/-- The generation of a link. -/
def generationAt (e : Ensemble) (l : Nat) : Option Nat :=
  (e.links[l]?).map (·.generation)

/-- The meetings that are over, in order: every worker was at those of which it is a member, and
at the one at which it is held. -/
structure Met (e₀ : Ensemble) (order : List Nat) (journal : Journal) (e : Ensemble) : Prop where
  visited : ∀ (i : Nat) (w : Worker), e.workers[i]? = some w →
    journal.visited i = order.filter (isMemberAt e₀.links i) ++ w.heldBy e.generationAt
  manned : ∀ l ∈ order, ∀ j, isMemberAt e₀.links j l → j < e₀.workers.length

theorem generationAt_of_found {l : Nat} {r : Rendezvous} (found : e.links[l]? = some r) :
    e.generationAt l = some r.generation := by
  unfold generationAt
  rw [found]
  rfl

theorem generationAt_set {l : Nat} {r r' : Rendezvous} (found : e.links[l]? = some r)
    (links : e'.links = e.links.set l r') :
    e'.generationAt = Function.update e.generationAt l (some r'.generation) := by
  have hlookup : ∀ e : Ensemble, e.generationAt =
      fun l => (e.links[l]?).bind fun r => some r.generation := by
    intro e
    funext l
    exact Option.map_eq_bind
  rw [hlookup, hlookup, links]
  exact bind_getElem?_set found r' _

/-- A link that is set without a new generation has the one it had. -/
theorem generationAt_of_same {l : Nat} {r r' : Rendezvous} (found : e.links[l]? = some r)
    (links : e'.links = e.links.set l r') (hgen : r'.generation = r.generation) :
    e'.generationAt = e.generationAt := by
  rw [generationAt_set found links, hgen]
  exact Function.update_eq_self_iff.2 (generationAt_of_found found).symm

theorem AtRest.met (h : e₀.AtRest) : Met e₀ [] (fun _ => []) e₀ := by
  refine ⟨fun i w hi => ?_, fun l hl => by cases hl⟩
  rw [Worker.heldBy_of_not_waiting (h.not_waiting hi)]
  rfl

/-- A move by which no meeting ends concerns only the worker that makes it. -/
theorem Met.of_set {order : List Nat} {arrival : Option (Nat × Nat)} (h : Met e₀ order journal e)
    (hi : e.workers[i]? = some w) (he : e'.workers = e.workers.set i w')
    (hgen : e'.generationAt = e.generationAt)
    (hvisited : ∀ before, journal.visited i = before ++ w.heldBy e.generationAt →
      Journal.visited (arrival.elim journal (note journal i)) i =
        before ++ w'.heldBy e.generationAt) :
    Met e₀ order (arrival.elim journal (note journal i)) e' := by
  refine ⟨fun j v hv => ?_, h.manned⟩
  rw [hgen]
  rw [he] at hv
  rcases getElem?_set_cases hv with ⟨rfl, rfl⟩ | ⟨hij, hv⟩
  · exact hvisited _ (h.visited j w hi)
  · rw [Journal.visited_elim_of_ne hij]
    exact h.visited j v hv

/-- When the last member of a link comes, the other ones are held there. -/
theorem Course.waiting_of_released (course : Course e₀ journal e) {link clock joinTime : Nat}
    {r r' : Rendezvous} (found : e.links[link]? = some r)
    (arrival : r.arrive i clock = (.released joinTime, r')) {j : Nat}
    (hj : isMemberAt e₀.links j link) (hne : j ≠ i) :
    ∃ v, e.workers[j]? = some v ∧ v.phase = .waiting link r.generation := by
  obtain ⟨a, n, _, -, round, hseen, hlink, -⟩ := course.exists_round_at found
  have hmem : j ∈ r.members := by
    rw [← course.isMember_eq found] at hj
    simpa [Rendezvous.isMember] using hj
  subst hlink
  have hinside := round.inside_of_released arrival hmem hne
  rw [hseen.inside] at hinside
  obtain ⟨v, hv, hwaits⟩ := Option.bind_eq_some_iff.1 hinside
  exact ⟨v, hv, Worker.phase_of_waitsAt hwaits⟩

/-- When the last member of a link comes, the hold on the others at this link ends, and no other
hold. -/
theorem Course.heldBy_of_released (course : Course e₀ journal e) {link clock joinTime : Nat}
    {r r' : Rendezvous} (found : e.links[link]? = some r)
    (arrival : r.arrive i clock = (.released joinTime, r'))
    (links : e'.links = e.links.set link r') {j : Nat} {v : Worker} (hv : e.workers[j]? = some v)
    (hne : j ≠ i) :
    v.heldBy e.generationAt =
      (if isMemberAt e₀.links j link then [link] else []) ++ v.heldBy e'.generationAt := by
  obtain ⟨-, -, -, hr'⟩ := Rendezvous.of_arrive_released arrival
  have hgen := generationAt_set found links
  by_cases hj : isMemberAt e₀.links j link
  · obtain ⟨v', hv', waiting⟩ := course.waiting_of_released found arrival hj hne
    rw [hv] at hv'
    cases hv'
    rw [if_pos hj, Worker.heldBy_of_waiting waiting, Worker.heldBy_of_waiting waiting,
      if_pos (generationAt_of_found found), hgen, Function.update_self, hr', if_neg (by simp)]
    rfl
  · rw [if_neg hj, List.nil_append]
    cases hphase : v.phase with
    | waiting l g =>
      obtain ⟨_, -, hway⟩ := course.underway j v hv
      have hl : l ≠ link := by
        rintro rfl
        exact hj (hway.waiting l g hphase).1
      rw [Worker.heldBy_of_waiting hphase, Worker.heldBy_of_waiting hphase, hgen,
        Function.update_of_ne hl]
    | _ =>
      rw [Worker.heldBy_of_not_waiting (by simp [hphase]),
        Worker.heldBy_of_not_waiting (by simp [hphase])]

/-- By the arrival of the last member a meeting ends, and with it the hold on the others. -/
theorem Met.release {order : List Nat} (h : Met e₀ order journal e) (course : Course e₀ journal e)
    {link clock joinTime : Nat} {r r' : Rendezvous} (hi : e.workers[i]? = some w)
    (free : ∀ l g, w.phase ≠ .waiting l g) (free' : ∀ l g, w'.phase ≠ .waiting l g)
    (found : e.links[link]? = some r) (arrival : r.arrive i clock = (.released joinTime, r'))
    (workers : e'.workers = e.workers.set i w') (links : e'.links = e.links.set link r') :
    Met e₀ (order ++ [link]) (note journal i (link, clock)) e' := by
  have hi' : isMemberAt e₀.links i link := by
    rw [← course.isMember_eq found]
    simpa [Rendezvous.isMember] using (Rendezvous.of_arrive_released arrival).1
  have hfilter : ∀ j, (order ++ [link]).filter (isMemberAt e₀.links j) =
      order.filter (isMemberAt e₀.links j) ++
        if isMemberAt e₀.links j link then [link] else [] := by
    intro j
    rw [List.filter_append, List.filter_cons, List.filter_nil]
  refine ⟨fun j v hv => ?_, fun l hl j hj => ?_⟩
  · rw [workers] at hv
    rw [hfilter]
    rcases getElem?_set_cases hv with ⟨rfl, rfl⟩ | ⟨hij, hv⟩
    · have hold := h.visited j w hi
      rw [Worker.heldBy_of_not_waiting free, List.append_nil] at hold
      rw [Journal.visited_note, hold, if_pos hi', Worker.heldBy_of_not_waiting free',
        List.append_nil]
    · have hsame : Journal.visited (note journal i (link, clock)) j = journal.visited j := by
        unfold Journal.visited
        rw [note_of_ne hij]
      rw [hsame, h.visited j v hv, List.append_assoc,
        course.heldBy_of_released found arrival links hv hij]
  · rcases List.mem_append.1 hl with hl | hl
    · exact h.manned l hl j hj
    · rw [List.mem_singleton.1 hl] at hj
      rw [← course.length_workers]
      by_cases hij : j = i
      · rw [hij]
        exact (List.getElem?_eq_some_iff.1 hi).1
      · obtain ⟨v, hv, -⟩ := course.waiting_of_released found arrival hj hij
        exact (List.getElem?_eq_some_iff.1 hv).1

theorem Met.move {order : List Nat} {arrival : Option (Nat × Nat)} (h : Met e₀ order journal e)
    (course : Course e₀ journal e) (unfailed : e'.Unfailed) (hi : e.workers[i]? = some w)
    (hm : Move e i w arrival e') :
    ∃ order', Met e₀ order' (arrival.elim journal (note journal i)) e' := by
  have hout := course.numbered i w hi
  have hready : w.phase = .ready → w.heldBy e.generationAt = [] :=
    fun ready => Worker.heldBy_of_not_waiting (Worker.not_waiting_of_ready ready)
  cases hm with
  | beginPass ready done passes entered =>
    refine ⟨order, h.of_set hi rfl rfl fun before hb => ?_⟩
    rw [hready ready] at hb
    rw [Worker.heldBy_of_not_waiting (by exact Worker.not_waiting_of_ready ready)]
    exact hb
  | finish ready =>
    refine ⟨order, h.of_set hi rfl rfl fun before hb => ?_⟩
    rw [hready ready] at hb
    exact hb
  | operate ready =>
    refine ⟨order, h.of_set hi rfl rfl fun before hb => ?_⟩
    rw [hready ready] at hb
    exact hb
  | @pass s rest link r r' ready todo meet found arrival =>
    obtain ⟨-, rfl⟩ := Rendezvous.of_arrive_stranger arrival
    refine ⟨order, h.of_set hi rfl (generationAt_of_same found rfl rfl) fun before hb => ?_⟩
    rw [hready ready] at hb
    rw [Worker.heldBy_of_not_waiting (by exact Worker.not_waiting_of_ready ready)]
    exact hb
  | @wait s rest link generation r r' ready todo meet found arrival =>
    obtain ⟨-, rfl, rfl, -⟩ := Rendezvous.of_arrive_waiting arrival
    refine ⟨order, h.of_set hi rfl (generationAt_of_same found rfl rfl) fun before hb => ?_⟩
    rw [hready ready, List.append_nil] at hb
    show Journal.visited (note journal i (link, w.channel.clock)) i = _
    rw [Worker.heldBy_of_waiting rfl, if_pos (generationAt_of_found found), ← hb,
      Journal.visited_note]
  | @release s rest link joinTime t r r' channel ready todo meet found arrival leapt =>
    rw [hout] at arrival
    refine ⟨_, h.release course hi (Worker.not_waiting_of_ready ready) ?_ found arrival rfl rfl⟩
    nofun
  | @wake s rest link generation joinTime t r channel waiting todo found woken leapt =>
    refine ⟨order, h.of_set hi rfl rfl fun before hb => ?_⟩
    have hne := (Rendezvous.of_wake? woken).1
    rw [Worker.heldBy_of_waiting waiting, generationAt_of_found found,
      if_neg (by simpa using hne)] at hb
    exact hb
  | fail _ failed => exact (unfailed.false_of_set hi rfl failed).elim

theorem Course.exists_met (course : Course e₀ journal e) : ∃ order, Met e₀ order journal e := by
  refine course.induction (P := fun journal e => ∃ order, Met e₀ order journal e)
    ⟨[], course.atRest.met⟩ ?_
  rintro journal e e' i w arrival course ⟨order, h⟩ unfailed hi hm
  exact h.move course unfailed hi hm

/-- The order of the meetings of a run in which all workers finish is a plan. -/
theorem Course.exists_plan (course : Course e₀ journal e)
    (finished : ∀ w ∈ e.workers, w.phase = .finished) : ∃ plan, Plan e₀ plan := by
  obtain ⟨order, h⟩ := course.exists_met
  have hdone : ∀ (i : Nat) (w₀ : Worker), e₀.workers[i]? = some w₀ →
      ∃ w, e.workers[i]? = some w ∧ w.phase = .finished ∧
        w.OnWay e₀.links i w₀.ahead (journal.visited i) := by
    intro i w₀ hi₀
    have hlt := (List.getElem?_eq_some_iff.1 hi₀).1
    rw [← course.length_workers] at hlt
    have hi := List.getElem?_eq_getElem hlt
    obtain ⟨w₀', hi₀', hway⟩ := course.underway i _ hi
    rw [hi₀] at hi₀'
    cases hi₀'
    exact ⟨_, hi, finished _ (List.mem_of_getElem? hi), hway⟩
  refine ⟨order, ?_, ?_, h.manned⟩
  · intro i w₀ hi₀
    obtain ⟨w, hi, hfinished, hway⟩ := hdone i w₀ hi₀
    have hvisited := h.visited i w hi
    rw [Worker.heldBy_of_not_waiting (by simp [hfinished]), List.append_nil] at hvisited
    rw [← hway.route, hway.finished hfinished, ← hvisited, List.filter_nil, List.append_nil]
  · intro w₀ hw₀ l hl
    obtain ⟨i, hi₀⟩ := List.mem_iff_getElem?.1 hw₀
    obtain ⟨w, hi, hfinished, hway⟩ := hdone i w₀ hi₀
    rcases hway.passed l hl with hl | hl
    · rw [hway.finished hfinished] at hl
      cases hl
    · exact hl

end Ensemble

end MidiScore
