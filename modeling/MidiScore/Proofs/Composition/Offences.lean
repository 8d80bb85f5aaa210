import MidiScore.Proofs.Composition.Plan
import MidiScore.Proofs.Composition.Statements
import MidiScore.Proofs.Composition.Submission

/-!
# Where a block fails

The first statement that a worker has still to do and whose numbers are out of range is its
`offence?`. It stays the same with every step of the worker as long as all numbers that it works out
fit their words, and the worker is `Dutiful`: it can go on until it fails there, and finishes if
there is no such statement. What has been promised on the way never fails.
-/

namespace MidiScore

open Channel ChannelM

/-- The first statement with numbers out of range in several passes of a block. -/
def Block.offence? (b : Block) (passes : Nat) : Option Located :=
  (List.replicate passes b.statements).flatten.find? (!·.statement.isInRange)

namespace Worker

/-- The first statement with numbers out of range that the worker has still to do. -/
def offence? (w : Worker) : Option Located :=
  (w.todo ++ (List.replicate w.passesLeft w.block.statements).flatten).find?
    (!·.statement.isInRange)

/-- What a worker is to do. -/
def errand (w : Worker) : Block × Nat × Option Located :=
  (w.block, w.output, w.offence?)

/-- The link of the current statement, if it is a meeting. -/
def link? (w : Worker) : Option Nat :=
  w.todo.head?.bind (·.statement.link?)

/-- The worker can go on, or it has ended as its statements have it. -/
inductive Dutiful (timing : Timing) (w : Worker) : Prop where
  | ready {now : Nat} (ready : w.phase = .ready) (solvent : w.channel.Solvent timing now)
  | waiting {link generation now : Nat} {s : Located} {rest : List Located}
      (waiting : w.phase = .waiting link generation) (todo : w.todo = s :: rest)
      (meet : s.statement = .meet link) (solvent : w.channel.Solvent timing now)
  | finished (finished : w.phase = .finished) (spotless : w.offence? = none)
  | failed {s : Located} {m : Message} {cause : ValueError} (offence : w.offence? = some s)
      (failed : w.phase = .failed (.statement w.block.name s.location (.refused m cause)))

/-- The worker has become `w'`, which has the same errand and is dutiful. -/
structure Becomes (timing : Timing) (w w' : Worker) : Prop where
  errand : w'.errand = w.errand
  dutiful : w'.Dutiful timing

/-- The numbers that a worker works out in its next step. -/
def figures (links : List Rendezvous) (w : Worker) : List Figure :=
  match w.phase, w.todo with
  | .ready, [] =>
    match w.passesLeft, w.block.directive with
    | _ + 1, some directive => directive.figures w.channel.timing w.channel.clock
    | _, _ => []
  | .ready, s :: _ =>
    match s.statement with
    | .meet link =>
      match (links[link]?).map fun r : Rendezvous => (r.arrive w.output w.channel.clock).1 with
      | some (.released joinTime) => [.tick joinTime]
      | _ => []
    | statement => statement.figures w.channel.timing w.channel.clock
  | .waiting link generation, _ =>
    match (links[link]?).bind (·.wake? generation) with
    | some joinTime => [.tick joinTime]
    | none => []
  | .finished, _ | .failed _, _ => []

variable {timing : Timing} {now left : Nat} {w : Worker} {s : Located} {rest : List Located}
  {α : Type} {m : ChannelM α}

theorem link?_of_meet {link : Nat} (todo : w.todo = s :: rest) (meet : s.statement = .meet link) :
    w.link? = some link := by
  unfold link?
  rw [todo, List.head?_cons, Option.bind_some, meet]
  rfl

theorem Dutiful.of_failed {reason : CompileError} (h : w.Dutiful timing)
    (failed : w.phase = .failed reason) : ∃ s m cause, w.offence? = some s ∧
      reason = .statement w.block.name s.location (.refused m cause) := by
  cases h with
  | ready h | waiting h | finished h =>
    rw [h] at failed
    cases failed
  | failed offence h =>
    rw [h] at failed
    cases failed
    exact ⟨_, _, _, offence, rfl⟩

/-! ## What a step does to the errand -/

theorem errand_passed (todo : w.todo = s :: rest) (hrange : s.statement.isInRange = true)
    (channel : Channel) (phase : Phase) :
    ({ w with channel, todo := rest, phase } : Worker).errand = w.errand := by
  unfold errand offence?
  rw [todo, List.cons_append, List.find?_cons_of_neg (by rw [hrange]; decide)]

theorem errand_entered (done : w.todo = []) (passes : w.passesLeft = left + 1)
    (channel : Channel) :
    ({ w with channel, passesLeft := left, todo := w.block.statements } : Worker).errand =
      w.errand := by
  unfold errand offence?
  rw [done, passes, List.replicate_succ, List.flatten_cons, List.nil_append]

theorem offence?_of_done (done : w.todo = []) (passes : w.passesLeft = 0) : w.offence? = none := by
  unfold offence?
  rw [done, passes]
  rfl

theorem offence?_of_not_isInRange (todo : w.todo = s :: rest)
    (hrange : s.statement.isInRange = false) : w.offence? = some s := by
  unfold offence?
  rw [todo, List.cons_append, List.find?_cons_of_pos (by rw [hrange]; rfl)]

/-- The errand of a worker that starts is that of its block. -/
theorem offence?_start {b : Block} {passes : Nat} (h : b.passes? = some passes)
    (output number : Nat) (timing : Timing) :
    (start b output number timing).offence? = b.offence? passes := by
  unfold offence? start Block.offence?
  rw [h]
  rfl

/-! ## A statement, a pass and the end -/

/-- A statement that succeeds is passed. -/
theorem Becomes.pass (todo : w.todo = s :: rest) (hrange : s.statement.isInRange = true)
    (hc : w.channel.Solvent timing now) (h : Spends timing now m) :
    w.Becomes timing (w.runStatement s rest m) := by
  obtain ⟨a, c, hrun, later, hc'⟩ := h w.channel hc
  unfold runStatement
  rw [act_of_ok hrun]
  exact ⟨errand_passed todo hrange c .ready, .ready rfl hc'⟩

/-- At a statement that is refused the worker fails. -/
theorem Becomes.refuse (todo : w.todo = s :: rest) (hrange : s.statement.isInRange = false)
    (h : Refuses m w.channel) :
    w.Becomes timing (w.runStatement s rest m) := by
  obtain ⟨message, cause, c, hrun⟩ := h
  have hoffence := offence?_of_not_isInRange todo hrange
  unfold runStatement
  rw [act_of_error hrun]
  exact ⟨rfl, .failed hoffence rfl⟩

theorem Becomes.enter (ready : w.phase = .ready) (done : w.todo = [])
    (passes : w.passesLeft = left + 1) (hc : w.channel.Solvent timing now)
    (fits : ∀ directive, w.block.directive = some directive →
      ∀ f ∈ directive.figures w.channel.timing w.channel.clock, f.Fits) :
    w.Becomes timing (w.beginPass left) := by
  unfold beginPass
  cases hdirective : w.block.directive with
  | none => exact ⟨errand_entered done passes w.channel, .ready ready hc⟩
  | some directive =>
    have hfits := fits directive hdirective
    rw [hc.timing_eq, hc.clock_eq] at hfits
    obtain ⟨t, c, hrun, later, hc'⟩ := spends_follow hfits w.channel hc
    dsimp only
    rw [act_of_ok hrun]
    exact ⟨errand_entered done passes c, .ready ready hc'⟩

end Worker

namespace Ensemble

/-! ## The steps of one worker -/

section Own

variable {timing : Timing} {now i : Nat} {e e' : Ensemble} {w : Worker} {s : Located}
  {rest : List Located}

theorem exists_worker_finish (done : w.todo = []) (passes : w.passesLeft = 0)
    (hc : w.channel.Solvent timing now) (slot : w.output < e.sequence.slots.length) :
    ∃ w', (e.finish i w).workers = e.workers.set i w' ∧ w.Becomes timing w' := by
  obtain ⟨t, c, hrun, -⟩ := spends_flush w.channel hc
  unfold Ensemble.finish
  rw [Worker.act_of_ok hrun]
  dsimp only
  rw [if_pos (by simp [Worker.isFinished])]
  split
  · exact ⟨_, rfl, rfl, .finished rfl (Worker.offence?_of_done done passes)⟩
  · next cause refused => exact absurd slot (Nat.not_lt.2 (Sequence.le_of_submit_error refused))

theorem exists_worker_meet {link : Nat} {r : Rendezvous} (ready : w.phase = .ready)
    (todo : w.todo = s :: rest) (meet : s.statement = .meet link)
    (hc : w.channel.Solvent timing now)
    (fits : ∀ joinTime, (r.arrive w.output w.channel.clock).1 = .released joinTime →
      joinTime < 1 <<< 63) :
    ∃ w', (e.meet i w s rest link r).workers = e.workers.set i w' ∧ w.Becomes timing w' := by
  have hrange := Statement.isInRange_of_meet meet
  unfold Ensemble.meet
  cases harrive : r.arrive w.output w.channel.clock with
  | mk arrival r' =>
    cases arrival with
    | stranger =>
      exact ⟨_, rfl, Worker.errand_passed todo hrange w.channel w.phase, .ready ready hc⟩
    | waiting generation => exact ⟨_, rfl, rfl, .waiting rfl todo meet hc⟩
    | released joinTime =>
      have hlt := fits joinTime (by rw [harrive])
      exact ⟨_, rfl, .pass todo hrange hc (spends_leapTo hlt)⟩

/-- A worker that waits can only go on when the meeting ends. -/
theorem exists_worker_wake {link generation : Nat}
    (waiting : w.phase = .waiting link generation) (todo : w.todo = s :: rest)
    (meet : s.statement = .meet link)
    (hc : w.channel.Solvent timing now) (fits : ∀ f ∈ w.figures e.links, f.Fits)
    (hstep : e.stepWorker? i w = some e') :
    ∃ w', e'.workers = e.workers.set i w' ∧ w.Becomes timing w' := by
  unfold Worker.figures at fits
  unfold stepWorker? at hstep
  rw [waiting, todo] at hstep fits
  obtain ⟨r, found, hstep⟩ := Option.bind_eq_some_iff.1 hstep
  obtain ⟨joinTime, woken, hstep⟩ := Option.bind_eq_some_iff.1 hstep
  cases hstep
  simp only [found, Option.bind_some, woken] at fits
  have hlt : joinTime < 1 <<< 63 := fits _ (List.mem_singleton_self _)
  exact ⟨_, rfl, .pass todo (Statement.isInRange_of_meet meet) hc (spends_leapTo hlt)⟩

/-- Between two passes the worker begins the next one, or ends. -/
theorem exists_worker_between (ready : w.phase = .ready) (done : w.todo = [])
    (hc : w.channel.Solvent timing now) (slot : w.output < e.sequence.slots.length)
    (fits : ∀ f ∈ w.figures e.links, f.Fits) (hstep : e.stepWorker? i w = some e') :
    ∃ w', e'.workers = e.workers.set i w' ∧ w.Becomes timing w' := by
  unfold Worker.figures at fits
  unfold stepWorker? at hstep
  rw [ready, done] at hstep fits
  dsimp only at hstep fits
  cases passes : w.passesLeft with
  | zero =>
    rw [passes] at hstep
    cases hstep
    exact exists_worker_finish done passes hc slot
  | succ left =>
    rw [passes] at hstep fits
    cases hstep
    refine ⟨_, rfl, .enter ready done passes hc fun directive hdirective => ?_⟩
    rw [hdirective] at fits
    exact fits

/-- At a statement the worker meets others, passes it, or fails. -/
theorem exists_worker_statement (ready : w.phase = .ready) (todo : w.todo = s :: rest)
    (hc : w.channel.Solvent timing now) (fits : ∀ f ∈ w.figures e.links, f.Fits)
    (hstep : e.stepWorker? i w = some e') :
    ∃ w', e'.workers = e.workers.set i w' ∧ w.Becomes timing w' := by
  unfold Worker.figures at fits
  unfold stepWorker? at hstep
  rw [ready, todo] at hstep fits
  dsimp only at hstep fits
  split at hstep
  · next link meet =>
    obtain ⟨r, found, rfl⟩ := Option.map_eq_some_iff.1 hstep
    refine exists_worker_meet ready todo meet hc fun joinTime harrive => ?_
    rw [meet] at fits
    simp only [found, Option.map_some, harrive] at fits
    exact fits _ (List.mem_singleton_self _)
  · next hmeet =>
    obtain ⟨op, operation, rfl⟩ := Option.map_eq_some_iff.1 hstep
    split at fits
    · next link meet => exact absurd meet (hmeet link)
    · rw [hc.timing_eq, hc.clock_eq] at fits
      cases hrange : s.statement.isInRange with
      | true => exact ⟨_, rfl, .pass todo hrange hc (Statement.performs operation hrange fits)⟩
      | false => exact ⟨_, rfl, .refuse todo hrange (Statement.refuses operation hrange)⟩

/-- A step of the worker keeps its errand. -/
theorem exists_worker_step (h : w.Dutiful timing) (slot : w.output < e.sequence.slots.length)
    (fits : ∀ f ∈ w.figures e.links, f.Fits) (hstep : e.stepWorker? i w = some e') :
    ∃ w', e'.workers = e.workers.set i w' ∧ w.Becomes timing w' := by
  cases h with
  | finished finished =>
    unfold stepWorker? at hstep
    rw [finished] at hstep
    cases hstep
  | failed _ failed =>
    unfold stepWorker? at hstep
    rw [failed] at hstep
    cases hstep
  | waiting waiting todo meet hc => exact exists_worker_wake waiting todo meet hc fits hstep
  | ready ready hc =>
    cases todo : w.todo with
    | nil => exact exists_worker_between ready todo hc slot fits hstep
    | cons s rest => exact exists_worker_statement ready todo hc fits hstep

/-- A worker that cannot go on, and not because it is held up at a meeting, has ended. -/
theorem ended_of_stepWorker? (h : w.Dutiful timing) (stopped : e.stepWorker? i w = none)
    (apart : w.link? = none) :
    match w.offence? with
    | none => w.phase = .finished
    | some s => ∃ m cause,
      w.phase = .failed (.statement w.block.name s.location (.refused m cause)) := by
  cases h with
  | finished finished spotless =>
    rw [spotless]
    exact finished
  | failed offence failed =>
    rw [offence]
    exact ⟨_, _, failed⟩
  | waiting _ todo meet =>
    rw [Worker.link?_of_meet todo meet] at apart
    cases apart
  | ready ready =>
    unfold stepWorker? at stopped
    cases todo : w.todo with
    | nil =>
      rw [ready, todo] at stopped
      dsimp only at stopped
      split at stopped <;> cases stopped
    | cons s rest =>
      rw [ready, todo] at stopped
      dsimp only at stopped
      split at stopped
      · next link meet =>
        rw [Worker.link?_of_meet todo meet] at apart
        cases apart
      · next hmeet =>
        obtain ⟨op, operation⟩ := Statement.exists_operation? hmeet
        rw [operation] at stopped
        cases stopped

end Own

/-! ## Runs -/

/-- The numbers that worker `i` works out while workers take these turns. -/
def figures (e : Ensemble) (i : Nat) : List Nat → List Figure
  | [] => []
  | j :: turns =>
    (if j = i then (e.workers[i]?).elim [] (·.figures e.links) else []) ++
      ((e.step? j).getD e).figures i turns

section Runs

variable {timing : Timing} {i j : Nat} {e e' : Ensemble} {w : Worker}

/-- A step is taken by one worker, and keeps the number of the slots. -/
theorem Move.frame {arrival : Option (Nat × Nat)} (hm : Move e i w arrival e') :
    (∃ w', e'.workers = e.workers.set i w') ∧
      e'.sequence.slots.length = e.sequence.slots.length := by
  cases hm with
  | finish ready done passes flushed submitted =>
    obtain ⟨-, rfl⟩ := Sequence.of_submit submitted
    exact ⟨⟨_, rfl⟩, List.length_modify ..⟩
  | _ => exact ⟨⟨_, rfl⟩, rfl⟩

/-- Whoever takes a step, a dutiful worker keeps its errand. -/
theorem exists_worker_step? (hi : e.workers[i]? = some w) (h : w.Dutiful timing)
    (slot : w.output < e.sequence.slots.length)
    (fits : ∀ f ∈ if j = i then w.figures e.links else [], f.Fits) (hstep : e.step? j = some e') :
    ∃ w', e'.workers[i]? = some w' ∧ w.Becomes timing w' ∧
      e'.sequence.slots.length = e.sequence.slots.length := by
  obtain ⟨v, hj, hm⟩ := move_of_step? hstep
  obtain ⟨⟨v', hset⟩, hslots⟩ := hm.frame
  by_cases hij : j = i
  · subst hij
    rw [if_pos rfl] at fits
    have hown : e.stepWorker? j w = some e' := by rwa [step?, hi] at hstep
    obtain ⟨w', hset', hbecomes⟩ := exists_worker_step h slot fits hown
    refine ⟨w', ?_, hbecomes, hslots⟩
    rw [hset']
    exact List.getElem?_set_self (List.getElem?_eq_some_iff.1 hi).1
  · refine ⟨w, ?_, ⟨rfl, h⟩, hslots⟩
    rw [hset, List.getElem?_set_ne hij]
    exact hi

theorem exists_worker_takeTurns {turns : List Nat} (hi : e.workers[i]? = some w)
    (h : w.Dutiful timing) (slot : w.output < e.sequence.slots.length)
    (fits : ∀ f ∈ e.figures i turns, f.Fits) :
    ∃ w', (e.takeTurns turns).workers[i]? = some w' ∧ w.Becomes timing w' := by
  induction turns generalizing e w with
  | nil => exact ⟨w, hi, rfl, h⟩
  | cons j turns ih =>
    obtain ⟨hnext, hlater⟩ := List.forall_mem_append.1 fits
    show ∃ w', (((e.step? j).getD e).takeTurns turns).workers[i]? = some w' ∧ _
    cases hstep : e.step? j with
    | none =>
      rw [hstep] at hlater
      exact ih hi h slot hlater
    | some e' =>
      rw [hstep] at hlater
      rw [hi] at hnext
      obtain ⟨w₁, hi₁, ⟨herrand, h₁⟩, hslots⟩ := exists_worker_step? hi h slot hnext hstep
      have houtput : w₁.output = w.output := congrArg (·.2.1) herrand
      obtain ⟨w', hi', herrand', h'⟩ := ih hi₁ h₁ (by rw [houtput, hslots]; exact slot) hlater
      exact ⟨w', hi', herrand'.trans herrand, h'⟩

end Runs

end Ensemble

/-! ## Blocks -/

namespace Composition

/-- The worker of a block that makes a bounded number of passes starts with that errand. -/
theorem exists_worker_start {c : Composition} {timing : Timing} {e : Ensemble} {i passes : Nat}
    {b : Block} (start : c.ensemble timing = .ok e) (found : c.blocks[i]? = some b)
    (bounded : b.passes? = some passes) :
    ∃ w, e.workers[i]? = some w ∧ w.Dutiful timing ∧ w.output < e.sequence.slots.length ∧
      w.block = b ∧ w.offence? = b.offence? passes := by
  have hlt := (List.getElem?_eq_some_iff.1 found).1
  rw [← length_workers_ensemble start] at hlt
  have hi := List.getElem?_eq_getElem hlt
  generalize e.workers[i] = w at hi
  obtain ⟨b', number, hb', -, rfl⟩ := exists_block_of_ensemble start hi
  obtain rfl : b = b' := Option.some.inj (found.symm.trans hb')
  have hready : (Worker.start b i number timing).phase = .ready := by
    unfold Worker.start
    rw [bounded]
    rfl
  have hnumber : number ≤ 15 := number_le_of_ensemble start _ (List.mem_of_getElem? hi)
  have hslot : i < e.sequence.slots.length := by
    rw [length_slots_ensemble start, ← length_workers_ensemble start]
    exact hlt
  exact ⟨_, hi, .ready hready (solvent_fresh b.percussion timing hnumber), hslot, rfl,
    Worker.offence?_start bounded i number timing⟩

/-- **A block fails at its first statement with numbers out of range.** Let a block that makes a
bounded number of passes be played with others, in any order of the steps of all, and let the
numbers that it works out fit their words. Each of its steps leaves less work. Once it cannot go on,
and is not held up at a meeting, it has finished if all its statements send numbers in range.
Otherwise it has failed at the first one that does not, in the order in which its passes do them. At
no time has it failed otherwise: not by what was promised before, and not at the start of a pass or
at its end. -/
theorem fails_at_offence {c : Composition} {timing : Timing} {e₀ : Ensemble} {i passes : Nat}
    {b : Block} {turns : List Nat} (start : c.ensemble timing = .ok e₀)
    (found : c.blocks[i]? = some b) (bounded : b.passes? = some passes)
    (fits : ∀ f ∈ e₀.figures i turns, f.Fits) :
    ∃ w, (e₀.takeTurns turns).workers[i]? = some w ∧
      (∀ reason, w.phase = .failed reason → ∃ s m cause, b.offence? passes = some s ∧
        reason = .statement b.name s.location (.refused m cause)) ∧
      (∀ e', (e₀.takeTurns turns).step? i = some e' → e'.work < (e₀.takeTurns turns).work) ∧
      ((e₀.takeTurns turns).step? i = none → w.link? = none →
        match b.offence? passes with
        | none => w.phase = .finished
        | some s => ∃ m cause,
          w.phase = .failed (.statement b.name s.location (.refused m cause))) := by
  obtain ⟨w₀, hi₀, h₀, hslot, hblock₀, hoffence₀⟩ := exists_worker_start start found bounded
  obtain ⟨w, hi, herrand, h⟩ := Ensemble.exists_worker_takeTurns hi₀ h₀ hslot fits
  have hblock : w.block = b := (congrArg (·.1) herrand).trans hblock₀
  have hoffence : w.offence? = b.offence? passes := (congrArg (·.2.2) herrand).trans hoffence₀
  refine ⟨w, hi, fun reason failed => ?_, fun e' => Ensemble.work_step?_lt,
    fun stopped apart => ?_⟩
  · obtain ⟨s, m, cause, hs, hreason⟩ := h.of_failed failed
    rw [hoffence] at hs
    rw [hblock] at hreason
    exact ⟨s, m, cause, hs, hreason⟩
  · have hown : (e₀.takeTurns turns).stepWorker? i w = none := by
      rwa [Ensemble.step?, hi] at stopped
    have hended := Ensemble.ended_of_stepWorker? h hown apart
    rwa [hoffence, hblock] at hended

/-- The first block bends a note and meets the second one before it sets a bank out of range. -/
def misfit : Composition where
  blocks := [
    { name := "lead"
      directive := some { passes := some 2 }
      statements := [
        ⟨⟨1, 1⟩, .playPhrase { melody := ⟨[⟨.pitch .c, .gliscando⟩]⟩, rhythm := ⟨[.quarter]⟩ }⟩,
        ⟨⟨2, 1⟩, .meet 0⟩,
        ⟨⟨3, 1⟩, .setBank 200⟩] },
    { name := "bass"
      statements := [⟨⟨1, 1⟩, .rest .half⟩, ⟨⟨2, 1⟩, .meet 0⟩, ⟨⟨3, 1⟩, .setInstrument 32⟩] }]
  links := [{ seats := [{ member := 0 }, { member := 1 }] }]

/-- The first block of `misfit` fails, the second one finishes. -/
theorem fails_at_offence_misfit :
    ∃ e₀ w w', misfit.ensemble .standard = .ok e₀ ∧
      (∀ f ∈ e₀.figures 0 (List.replicate 6 [0, 1]).flatten ++
        e₀.figures 1 (List.replicate 6 [0, 1]).flatten, f.Fits) ∧
      (e₀.takeTurns (List.replicate 6 [0, 1]).flatten).workers[0]? = some w ∧
      (∃ m cause, w.phase = .failed (.statement "lead" ⟨3, 1⟩ (.refused m cause))) ∧
      (e₀.takeTurns (List.replicate 6 [0, 1]).flatten).workers[1]? = some w' ∧
      w'.phase = .finished := by
  generalize hturns : (List.replicate 6 [0, 1]).flatten = turns
  have hchecks : (misfit.ensemble .standard).toOption.map (fun e =>
      (decide (∀ f ∈ e.figures 0 turns ++ e.figures 1 turns, f.Fits),
        ((e.takeTurns turns).step? 0).isNone, ((e.takeTurns turns).step? 1).isNone,
        (e.takeTurns turns).workers.map (·.link?))) =
      some (true, true, true, [none, none]) := by
    rw [← hturns]
    decide +kernel
  cases start : misfit.ensemble .standard with
  | error cause =>
    rw [start] at hchecks
    cases hchecks
  | ok e₀ =>
    rw [start] at hchecks
    obtain ⟨hfits, hchecks⟩ := Prod.mk.inj (Option.some.inj hchecks)
    obtain ⟨hstopped, hchecks⟩ := Prod.mk.inj hchecks
    obtain ⟨hstopped', hlinks⟩ := Prod.mk.inj hchecks
    have hfits := of_decide_eq_true hfits
    obtain ⟨hlead, hbass⟩ := List.forall_mem_append.1 hfits
    have hlink : ∀ {i : Nat} {w : Worker}, (e₀.takeTurns turns).workers[i]? = some w →
        w.link? = none := by
      intro i w hi
      have hmem := List.mem_map_of_mem (f := (·.link?)) (List.mem_of_getElem? hi)
      rw [hlinks] at hmem
      simpa using hmem
    obtain ⟨w, hi, -, -, hended⟩ := fails_at_offence (i := 0) start rfl rfl hlead
    obtain ⟨w', hi', -, -, hended'⟩ := fails_at_offence (i := 1) start rfl rfl hbass
    have hfailed := hended (Option.isNone_iff_eq_none.1 hstopped) (hlink hi)
    have hfinished := hended' (Option.isNone_iff_eq_none.1 hstopped') (hlink hi')
    exact ⟨e₀, w, w', rfl, hfits, hi, hfailed, hi', hfinished⟩

/-- Two blocks that send nothing out of range, and whose ticks fit a signed word: the multiples of a
length and the common grid of two others do not fit an unsigned one. -/
def unwieldy : Composition where
  blocks := [
    { name := "slide"
      statements := [⟨⟨1, 1⟩, .playPhrase {
        melody := ⟨[⟨.pitch .c, .gliscando⟩]⟩
        rhythm := ⟨[⟨4503599627370496, false⟩]⟩ }⟩] },
    { name := "grid"
      statements := [
        ⟨⟨1, 1⟩, .follow { quantize := some ⟨4503599627370497, false⟩, align := .measure }⟩] }]

/-- That the ticks of a block fit is not enough for it to finish. -/
theorem overflow_unwieldy :
    ∃ e₀, unwieldy.ensemble .standard = .ok e₀ ∧
      (∀ b ∈ unwieldy.blocks, b.offence? 1 = none) ∧
      (∀ f ∈ e₀.figures 0 [0, 0, 1, 1] ++ e₀.figures 1 [0, 0, 1, 1], f.width = 63 → f.Fits) ∧
      (e₀.takeTurns [0, 0, 1, 1]).workers.map (·.phase) =
        [.failed (.overflow "slide"), .failed (.overflow "grid")] := by
  have hchecks : (unwieldy.ensemble .standard).toOption.map (fun e =>
      (decide (∀ f ∈ e.figures 0 [0, 0, 1, 1] ++ e.figures 1 [0, 0, 1, 1], f.width = 63 → f.Fits),
        (e.takeTurns [0, 0, 1, 1]).workers.map (·.phase))) =
      some (true, [.failed (.overflow "slide"), .failed (.overflow "grid")]) := by
    decide +kernel
  have hrange : ∀ b ∈ unwieldy.blocks, (b.offence? 1).isNone := by decide +kernel
  cases start : unwieldy.ensemble .standard with
  | error cause =>
    rw [start] at hchecks
    cases hchecks
  | ok e₀ =>
    rw [start] at hchecks
    obtain ⟨hticks, hphases⟩ := Prod.mk.inj (Option.some.inj hchecks)
    have hspotless := fun b hb => Option.isNone_iff_eq_none.1 (hrange b hb)
    exact ⟨e₀, rfl, hspotless, of_decide_eq_true hticks, hphases⟩

end Composition

end MidiScore
