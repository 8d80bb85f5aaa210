import MidiScore.Proofs.Composition.Meetings

/-!
# Plans

A plan is an order of all meetings which every worker follows where it is a member. With a plan
nobody waits for ever: of the workers that are held at a link take the one that has gone the
shortest way along the plan; a member that is missing at its link has gone a shorter way, and so
must be held as well. Every run in which all workers finish leaves a plan, the order of its
meetings.
-/

namespace MidiScore

open Assembly (note note_self note_of_ne)

/-- The link at which a statement lets its block meet. -/
def Statement.link? : Statement → Option Nat
  | .meet link => some link
  | _ => none

/-- The links at which statements let their block meet, in order. -/
def meetingsOf (statements : List Located) : List Nat :=
  statements.filterMap (·.statement.link?)

theorem meetingsOf_append (l l' : List Located) :
    meetingsOf (l ++ l') = meetingsOf l ++ meetingsOf l' :=
  List.filterMap_append

theorem meetingsOf_cons (s : Located) (l : List Located) :
    meetingsOf (s :: l) = s.statement.link?.toList ++ meetingsOf l := by
  unfold meetingsOf
  rw [List.filterMap_cons]
  cases s.statement.link? <;> rfl

theorem meetingsOf_cons_of_meet {s : Located} {link : Nat} (meet : s.statement = .meet link)
    (l : List Located) : meetingsOf (s :: l) = link :: meetingsOf l := by
  rw [meetingsOf_cons, meet]
  rfl

theorem Statement.link?_of_operation? {s : Statement} {op : Operation}
    (h : s.operation? = some op) : s.link? = none := by
  cases s with
  | meet link => cases h
  | _ => rfl

/-! ## The way of a worker -/

namespace Worker

variable {w w' : Worker} {links : List Rendezvous} {i : Nat} {whole visited visited' : List Nat}

/-- The links to which a worker has still to come. -/
def ahead (w : Worker) : List Nat :=
  meetingsOf (if w.isWaiting then w.todo.tail else w.todo) ++
    (List.replicate w.passesLeft (meetingsOf w.block.statements)).flatten

theorem isWaiting_of_ready (h : w.phase = .ready) : w.isWaiting = false := by
  simp [isWaiting, h]

theorem ahead_of_not_isWaiting (h : w.isWaiting = false) :
    w.ahead = meetingsOf w.todo ++
      (List.replicate w.passesLeft (meetingsOf w.block.statements)).flatten := by
  unfold ahead
  rw [h]
  rfl

theorem ahead_of_waiting {link generation : Nat} (h : w.phase = .waiting link generation) :
    w.ahead = meetingsOf w.todo.tail ++
      (List.replicate w.passesLeft (meetingsOf w.block.statements)).flatten := by
  unfold ahead
  rw [if_pos (by simp [isWaiting, h])]

/-- Worker `i` on its way through the links `whole`: it has come to those of which it is a member,
passed by the others, and what is left is ahead of it. -/
structure OnWay (links : List Rendezvous) (i : Nat) (whole visited : List Nat) (w : Worker) :
    Prop where
  route : visited ++ w.ahead.filter (Ensemble.isMemberAt links i) =
    whole.filter (Ensemble.isMemberAt links i)
  left : w.ahead <:+ whole
  passed : ∀ l ∈ whole, l ∈ w.ahead ∨ l < links.length
  finished : w.phase = .finished → w.ahead = []
  waiting : ∀ l generation, w.phase = .waiting l generation →
    Ensemble.isMemberAt links i l ∧ w.todo ≠ []

/-- A worker whose way ahead is the same is on its way. -/
theorem OnWay.of_same (h : w.OnWay links i whole visited) (ahead : w'.ahead = w.ahead)
    (finished : w'.phase = .finished → w.ahead = [])
    (waiting : ∀ l g, w'.phase ≠ .waiting l g) : w'.OnWay links i whole visited := by
  refine ⟨?_, ?_, ?_, fun hf => ahead.trans (finished hf), fun l g hw => absurd hw (waiting l g)⟩
  · rw [ahead, h.route]
  · rw [ahead]
    exact h.left
  · rw [ahead]
    exact h.passed

/-- A worker that passes by a link or comes to it is on its way. -/
theorem OnWay.of_meet {l : Nat} (h : w.OnWay links i whole visited)
    (ahead : w.ahead = l :: w'.ahead) (known : l < links.length)
    (hvisited : visited' = if Ensemble.isMemberAt links i l then visited ++ [l] else visited)
    (finished : w'.phase ≠ .finished)
    (waiting : ∀ l g, w'.phase = .waiting l g → Ensemble.isMemberAt links i l ∧ w'.todo ≠ []) :
    w'.OnWay links i whole visited' := by
  refine ⟨?_, ?_, ?_, fun hf => absurd hf finished, waiting⟩
  · rw [hvisited, ← h.route, ahead, List.filter_cons]
    split
    · rw [List.append_assoc]
      rfl
    · rfl
  · refine .trans ?_ h.left
    rw [ahead]
    exact List.suffix_cons ..
  · intro l' hl'
    rcases h.passed l' hl' with hl' | hl'
    · rw [ahead] at hl'
      rcases List.mem_cons.1 hl' with rfl | hl'
      · exact .inr known
      · exact .inl hl'
    · exact .inr hl'

end Worker

namespace Ensemble

variable {e e' e₀ : Ensemble} {i : Nat} {w w' : Worker} {journal : Journal}

/-- Every worker is on the way that was before it at the start. -/
def Underway (e₀ : Ensemble) (journal : Journal) (e : Ensemble) : Prop :=
  ∀ (i : Nat) (w : Worker), e.workers[i]? = some w → ∃ w₀, e₀.workers[i]? = some w₀ ∧
    w.OnWay e₀.links i w₀.ahead (journal.visited i)

theorem AtRest.underway (h : e₀.AtRest) : Underway e₀ (fun _ => []) e₀ := by
  intro i w hi
  refine ⟨w, hi, rfl, List.suffix_rfl, fun _ => .inl, fun hf => ?_, fun l g hw => ?_⟩
  · exact absurd hf (h.not_finished hi)
  · exact absurd hw (h.not_waiting hi l g)

/-- It is enough to look at the worker that makes a move. -/
theorem Underway.of_set {arrival : Option (Nat × Nat)} (h : Underway e₀ journal e)
    (hi : e.workers[i]? = some w) (he : e'.workers = e.workers.set i w')
    (way : ∀ whole, w.OnWay e₀.links i whole (journal.visited i) →
      w'.OnWay e₀.links i whole
        (Journal.visited (arrival.elim journal (note journal i)) i)) :
    Underway e₀ (arrival.elim journal (note journal i)) e' := by
  intro j v hv
  rw [he] at hv
  rcases getElem?_set_cases hv with ⟨rfl, rfl⟩ | ⟨hij, hv⟩
  · obtain ⟨w₀, hi₀, hway⟩ := h j w hi
    exact ⟨w₀, hi₀, way _ hway⟩
  · rw [Journal.visited_elim_of_ne hij]
    exact h j v hv

theorem Underway.move {arrival : Option (Nat × Nat)} (h : Underway e₀ journal e)
    (course : Course e₀ journal e) (unfailed : e'.Unfailed)
    (hi : e.workers[i]? = some w) (hm : Move e i w arrival e') :
    Underway e₀ (arrival.elim journal (note journal i)) e' := by
  have hknown : ∀ {l : Nat} {r : Rendezvous}, e.links[l]? = some r → l < e₀.links.length := by
    intro l r found
    rw [← course.length_links]
    exact (List.getElem?_eq_some_iff.1 found).1
  have hahead : w.phase = .ready → w.ahead = meetingsOf w.todo ++
      (List.replicate w.passesLeft (meetingsOf w.block.statements)).flatten :=
    fun ready => w.ahead_of_not_isWaiting (Worker.isWaiting_of_ready ready)
  cases hm with
  | beginPass ready done passes entered =>
    refine h.of_set hi rfl fun whole hway => hway.of_same ?_ ?_ ?_
    · rw [hahead ready, done, passes,
        Worker.ahead_of_not_isWaiting (Worker.isWaiting_of_ready (by exact ready))]
      rfl
    · exact fun hf => by simp [ready] at hf
    · exact fun l g hw => by simp [ready] at hw
  | finish ready done passes flushed submitted =>
    refine h.of_set hi rfl fun whole hway => hway.of_same ?_ (fun _ => ?_) nofun
    · rw [hahead ready, Worker.ahead_of_not_isWaiting (by rfl)]
    · rw [hahead ready, done, passes]
      rfl
  | operate ready todo operation performed =>
    refine h.of_set hi rfl fun whole hway => hway.of_same ?_ nofun nofun
    rw [hahead ready, todo, meetingsOf_cons, Statement.link?_of_operation? operation,
      Worker.ahead_of_not_isWaiting (by rfl)]
    rfl
  | @pass s rest link r r' ready todo meet found arrival =>
    have hno : isMemberAt e₀.links i link = false := by
      rw [← Bool.not_eq_true, course.isMemberAt_iff hi found]
      exact (Rendezvous.of_arrive_stranger arrival).1
    refine h.of_set hi rfl fun whole hway => hway.of_meet ?_ (hknown found) ?_ ?_ ?_
    · rw [hahead ready, todo, meetingsOf_cons_of_meet meet,
        Worker.ahead_of_not_isWaiting (Worker.isWaiting_of_ready (by exact ready))]
      rfl
    · rw [hno]
      rfl
    · exact fun hf => by simp [ready] at hf
    · exact fun l g hw => by simp [ready] at hw
  | @wait s rest link generation r r' ready todo meet found arrival =>
    have hyes := (course.isMemberAt_iff hi found).2 (Rendezvous.of_arrive_waiting arrival).1
    refine h.of_set hi rfl fun whole hway => hway.of_meet ?_ (hknown found) ?_ nofun ?_
    · rw [hahead ready, todo, meetingsOf_cons_of_meet meet, Worker.ahead_of_waiting (by rfl)]
      rfl
    · rw [hyes]
      exact Journal.visited_note ..
    · intro l g hw
      cases hw
      refine ⟨hyes, fun hnil => ?_⟩
      rw [todo] at hnil
      cases hnil
  | @release s rest link joinTime t r r' channel ready todo meet found arrival leapt =>
    have hyes := (course.isMemberAt_iff hi found).2 (Rendezvous.of_arrive_released arrival).1
    refine h.of_set hi rfl fun whole hway => hway.of_meet ?_ (hknown found) ?_ nofun nofun
    · rw [hahead ready, todo, meetingsOf_cons_of_meet meet, Worker.ahead_of_not_isWaiting (by rfl)]
      rfl
    · rw [hyes]
      exact Journal.visited_note ..
  | wake waiting todo found woken leapt =>
    refine h.of_set hi rfl fun whole hway => hway.of_same ?_ nofun nofun
    rw [w.ahead_of_waiting waiting, Worker.ahead_of_not_isWaiting (by rfl), todo]
    rfl
  | fail _ failed => exact (unfailed.false_of_set hi rfl failed).elim

theorem Course.underway (course : Course e₀ journal e) : Underway e₀ journal e := by
  refine course.induction (P := Underway e₀) course.atRest.underway ?_
  intro journal e e' i w arrival course h unfailed hi hm
  exact h.move course unfailed hi hm

/-! ## Workers that are held -/

/-- Worker `i` waits at a link and its meeting is not over. -/
def HeldAt (e : Ensemble) (i l : Nat) : Prop :=
  ∃ (w : Worker) (r : Rendezvous), e.workers[i]? = some w ∧ e.links[l]? = some r ∧
    w.phase = .waiting l r.generation

theorem HeldAt.inside_eq {l : Nat} {r : Rendezvous} (h : e.HeldAt i l)
    (found : e.links[l]? = some r) : e.inside l i = some r.generation := by
  obtain ⟨w, r', hi, found', waiting⟩ := h
  rw [found] at found'
  cases found'
  rw [Ensemble.inside_eq hi]
  simp [Worker.waitsAt, waiting]

theorem HeldAt.step?_eq_none {l : Nat} (h : e.HeldAt i l) : e.step? i = none := by
  obtain ⟨w, r, hi, found, waiting⟩ := h
  have asleep := Rendezvous.wake?_eq_none_iff.2 (rfl : r.generation = r.generation)
  unfold step?
  rw [hi]
  show e.stepWorker? i w = none
  unfold stepWorker?
  rw [waiting]
  cases w.todo with
  | nil => rfl
  | cons s rest =>
    dsimp only
    rw [found]
    simp [asleep]

/-- While a worker is held at a link, it is a member and another member has been there once less. -/
theorem Course.exists_missing (course : Course e₀ journal e)
    {l : Nat} (held : e.HeldAt i l) :
    isMemberAt e₀.links i l ∧ ∃ j, isMemberAt e₀.links j l ∧
      (journal.visited j).count l + 1 = (journal.visited i).count l := by
  obtain ⟨w, r, hi, found, waiting⟩ := id held
  obtain ⟨a, n, _, -, round, hseen, -⟩ := course.exists_round_at found
  have hcount : ∀ j, (journal.visited j).count l = (a.calls j).length := by
    intro j
    rw [hseen.calls]
    exact journal.count_visited l j
  have hmember : ∀ j, isMemberAt e₀.links j l ↔ j ∈ a.link.members := by
    intro j
    rw [← course.isMember_eq hseen.link]
    simp [Rendezvous.isMember]
  have hinside : a.inside i = some a.link.generation := by
    rw [hseen.inside]
    exact held.inside_eq hseen.link
  have hi' : i ∈ a.link.members := by
    by_contra hno
    rw [(round.stranger i hno).1] at hinside
    cases hinside
  obtain ⟨j, hj, hcalls⟩ := round.exists_missing
  refine ⟨(hmember i).2 hi', j, (hmember j).2 hj, ?_⟩
  rw [hcount, hcount, hcalls, round.length_calls_of_held hi' hinside]

/-! ## Plans -/

/-- An order of all meetings: every worker goes through those of which it is a member, the links
exist, and no member is without a worker. -/
structure Plan (e₀ : Ensemble) (plan : List Nat) : Prop where
  follows : ∀ (i : Nat) (w : Worker), e₀.workers[i]? = some w →
    w.ahead.filter (isMemberAt e₀.links i) = plan.filter (isMemberAt e₀.links i)
  known : ∀ w ∈ e₀.workers, ∀ l ∈ w.ahead, l < e₀.links.length
  manned : ∀ l ∈ plan, ∀ j, isMemberAt e₀.links j l → j < e₀.workers.length

/-- A plan depends on who meets where, and on nothing else about the links. -/
theorem Plan.with_links {plan : List Nat} (h : Plan e₀ plan) {links : List Rendezvous}
    (same : links.map (·.members) = e₀.links.map (·.members)) : Plan { e₀ with links } plan := by
  have hmember := isMemberAt_congr same
  have hlength : links.length = e₀.links.length := by
    rw [← List.length_map (·.members), same, List.length_map]
  refine ⟨fun i w hi => ?_, fun w hw l hl => ?_, fun l hl j hj => ?_⟩
  · rw [hmember]
    exact h.follows i w hi
  · rw [hlength]
    exact h.known w hw l hl
  · rw [hmember] at hj
    exact h.manned l hl j hj

/-- A worker that is ready can take a step. -/
theorem Plan.step?_ne_none {plan : List Nat} (h : Plan e₀ plan) (course : Course e₀ journal e)
    (hi : e.workers[i]? = some w)
    (ready : w.phase = .ready) : e.step? i ≠ none := by
  intro stuck
  unfold step? at stuck
  rw [hi] at stuck
  replace stuck : e.stepWorker? i w = none := stuck
  unfold stepWorker? at stuck
  rw [ready] at stuck
  cases htodo : w.todo with
  | nil =>
    rw [htodo] at stuck
    dsimp only at stuck
    split at stuck <;> cases stuck
  | cons s rest =>
    rw [htodo] at stuck
    dsimp only at stuck
    split at stuck
    · next link meet =>
      obtain ⟨w₀, hi₀, hway⟩ := course.underway i w hi
      have hl : link ∈ w.ahead := by
        rw [w.ahead_of_not_isWaiting (Worker.isWaiting_of_ready ready), htodo,
          meetingsOf_cons_of_meet meet]
        exact List.mem_cons_self ..
      have hlt := h.known w₀ (List.mem_of_getElem? hi₀) link (hway.left.subset hl)
      rw [← course.length_links] at hlt
      rw [List.getElem?_eq_getElem hlt] at stuck
      cases stuck
    · next hmeet =>
      have hop := Option.map_eq_none_iff.1 stuck
      cases hs : s.statement with
      | meet link => exact hmeet link hs
      | _ =>
        rw [hs] at hop
        cases hop

/-- A worker that can take no step is done or is held. -/
theorem Plan.finished_or_held {plan : List Nat} (h : Plan e₀ plan) (course : Course e₀ journal e)
    (hi : e.workers[i]? = some w)
    (stuck : e.step? i = none) : w.phase = .finished ∨ ∃ l, e.HeldAt i l := by
  obtain ⟨w₀, -, hway⟩ := course.underway i w hi
  cases hphase : w.phase with
  | finished => exact .inl rfl
  | failed cause => exact absurd ⟨cause, hphase⟩ (course.unfailed w (List.mem_of_getElem? hi))
  | ready => exact absurd stuck (h.step?_ne_none course hi hphase)
  | waiting l generation =>
    obtain ⟨hstop, hne⟩ := hway.waiting l generation hphase
    obtain ⟨r₀, found₀, -⟩ := isMemberAt_iff.1 hstop
    obtain ⟨a, n, -, hseen, -⟩ := course.exists_round found₀
    obtain ⟨s, rest, htodo⟩ := List.exists_cons_of_ne_nil hne
    refine .inr ⟨l, w, a.link, hi, hseen.link, ?_⟩
    have hstuck : e.stepWorker? i w = none := by
      unfold step? at stuck
      rw [hi] at stuck
      exact stuck
    unfold stepWorker? at hstuck
    rw [hphase, htodo] at hstuck
    dsimp only at hstuck
    rw [hseen.link] at hstuck
    cases hwake : a.link.wake? generation with
    | none => rw [hphase, Rendezvous.wake?_eq_none_iff.1 hwake]
    | some joinTime => simp [hwake] at hstuck

/-- A worker on its way has gone a part of the plan. -/
theorem Plan.exists_part {plan : List Nat} (h : Plan e₀ plan) (course : Course e₀ journal e)
    (hi : e.workers[i]? = some w) :
    ∃ part, part <+: plan ∧ journal.visited i = part.filter (isMemberAt e₀.links i) := by
  obtain ⟨w₀, hi₀, hway⟩ := course.underway i w hi
  refine List.prefix_filter_iff.1 ⟨w.ahead.filter (isMemberAt e₀.links i), ?_⟩
  rw [← h.follows i w₀ hi₀]
  exact hway.route

/-- If no worker can take a step, then while one is held another is held who has gone a shorter
part of the plan. -/
theorem Plan.exists_held_before {plan part : List Nat} (h : Plan e₀ plan)
    (course : Course e₀ journal e) (stuck : ∀ i, e.step? i = none) {l : Nat} (held : e.HeldAt i l)
    (hpart : part <+: plan)
    (hvisited : journal.visited i = part.filter (isMemberAt e₀.links i)) :
    ∃ j l' part', e.HeldAt j l' ∧ part' <+: plan ∧ part'.length < part.length ∧
      journal.visited j = part'.filter (isMemberAt e₀.links j) := by
  obtain ⟨hi, j, hj, hmissing⟩ := course.exists_missing held
  rw [hvisited, List.count_filter hi] at hmissing
  have hmem : l ∈ plan := hpart.subset (List.count_pos_iff.1 (by omega))
  have hlt := h.manned l hmem j hj
  rw [← course.length_workers] at hlt
  have hv := List.getElem?_eq_getElem hlt
  obtain ⟨part', hpart', hvisited'⟩ := h.exists_part course hv
  rw [hvisited', List.count_filter hj] at hmissing
  -- a part with fewer meetings at a link is the shorter one
  have hshorter : part'.length < part.length := by
    by_contra hle
    have := (List.prefix_of_prefix_length_le hpart hpart' (by omega)).sublist.count_le l
    omega
  rcases h.finished_or_held course hv (stuck j) with hdone | ⟨l', held'⟩
  · -- who is done has gone the whole plan
    exfalso
    obtain ⟨w₀, hi₀, hway⟩ := course.underway j _ hv
    have hroute := hway.route
    rw [hway.finished hdone, h.follows j w₀ hi₀, List.filter_nil, List.append_nil,
      hvisited'] at hroute
    have hsame := congrArg (List.count l) hroute
    rw [List.count_filter hj, List.count_filter hj] at hsame
    have := hpart.sublist.count_le l
    omega
  · exact ⟨j, l', part', held', hpart', hshorter, hvisited'⟩

/-- If no worker can take a step, none is held: there is no shortest part on which one is. -/
theorem Plan.not_heldAt {plan : List Nat} (h : Plan e₀ plan) (course : Course e₀ journal e)
    (stuck : ∀ i, e.step? i = none) (i l : Nat) : ¬ e.HeldAt i l := by
  have hnone : ∀ n part i l, part.length = n → part <+: plan →
      journal.visited i = part.filter (isMemberAt e₀.links i) → ¬ e.HeldAt i l := by
    intro n
    induction n using Nat.strong_induction_on with
    | _ n shorter =>
      intro part i l hlen hpart hvisited held
      obtain ⟨j, l', part', held', hpart', hlt, hvisited'⟩ :=
        h.exists_held_before course stuck held hpart hvisited
      exact shorter _ (hlen ▸ hlt) part' j l' rfl hpart' hvisited' held'
  intro held
  obtain ⟨w, r, hi, -⟩ := id held
  obtain ⟨part, hpart, hvisited⟩ := h.exists_part course hi
  exact hnone _ part i l rfl hpart hvisited held

/-- With a plan, all workers have finished or some worker can take a step. -/
theorem Plan.finished_or_step {plan : List Nat} (h : Plan e₀ plan)
    (course : Course e₀ journal e) :
    (∀ w ∈ e.workers, w.phase = .finished) ∨ ∃ i e', e.step? i = some e' := by
  by_cases hstep : ∃ i e', e.step? i = some e'
  · exact .inr hstep
  · have stuck : ∀ i, e.step? i = none := by
      intro i
      cases hs : e.step? i with
      | none => rfl
      | some e' => exact absurd ⟨i, e', hs⟩ hstep
    refine .inl fun w hw => ?_
    obtain ⟨i, hi⟩ := List.mem_iff_getElem?.1 hw
    rcases h.finished_or_held course hi (stuck i) with hdone | ⟨l, held⟩
    · exact hdone
    · exact absurd held (h.not_heldAt course stuck i l)

end Ensemble

end MidiScore
