import Mathlib.Logic.Relation
import MidiScore.Composition.Compile
import MidiScore.Proofs.Channel.Ensures
import MidiScore.Proofs.Rendezvous.Basic

/-!
# Steps of an ensemble

`Ensemble.Steps` is what can happen in any order of the workers. `Ensemble.Move` lists what one step
of a worker can be, with what the worker and its link must look like for it, what comes of it, and
whether the worker came to a link by it; `move_of_step?` says that the list is complete. `settle` is
one of the possible orders.
-/

namespace MidiScore

/-- After an element is set, each is the new one or stands where it stood. -/
theorem getElem?_set_cases {α : Type} {l : List α} {i j : Nat} {x y : α}
    (h : (l.set i x)[j]? = some y) : (j = i ∧ y = x) ∨ (j ≠ i ∧ l[j]? = some y) := by
  by_cases hij : i = j
  · subst hij
    have hlt := (List.getElem?_eq_some_iff.1 h).1
    rw [List.length_set] at hlt
    rw [List.getElem?_set_self hlt] at h
    exact .inl ⟨rfl, (Option.some.inj h).symm⟩
  · rw [List.getElem?_set_ne hij] at h
    exact .inr ⟨Ne.symm hij, h⟩

/-- What is looked up in the elements changes only where one is set. -/
theorem bind_getElem?_set {α β : Type} {l : List α} {i : Nat} {x : α} (hi : l[i]? = some x)
    (y : α) (f : α → Option β) : (fun j => ((l.set i y)[j]?).bind f) =
      Function.update (fun j => (l[j]?).bind f) i (f y) := by
  funext j
  by_cases hj : j = i
  · subst hj
    rw [List.getElem?_set_self (List.getElem?_eq_some_iff.1 hi).1, Function.update_self]
    rfl
  · rw [List.getElem?_set_ne (Ne.symm hj), Function.update_of_ne hj]

/-- What a block does to its channel at the start of a pass. -/
def Block.enter (b : Block) : ChannelM Unit :=
  match b.directive with
  | some directive => do let _ ← ChannelM.follow directive
  | none => pure ⟨⟩

namespace Worker

/-- Whether the worker has failed. -/
def HasFailed (w : Worker) : Prop :=
  ∃ cause, w.phase = .failed cause

theorem not_hasFailed_of_ready {w : Worker} (h : w.phase = .ready) : ¬ w.HasFailed := by
  rintro ⟨cause, hf⟩
  rw [h] at hf
  cases hf

theorem not_finished_of_ready {w : Worker} (h : w.phase = .ready) : w.phase ≠ .finished := by
  rw [h]
  nofun

theorem not_waiting_of_ready {w : Worker} (h : w.phase = .ready) (link generation : Nat) :
    w.phase ≠ .waiting link generation := by
  rw [h]
  nofun

theorem not_hasFailed_of_waiting {w : Worker} {link generation : Nat}
    (h : w.phase = .waiting link generation) : ¬ w.HasFailed := by
  rintro ⟨cause, hf⟩
  rw [h] at hf
  cases hf

theorem not_hasFailed_of_finished {w : Worker} (h : w.phase = .finished) : ¬ w.HasFailed := by
  rintro ⟨cause, hf⟩
  rw [h] at hf
  cases hf

theorem act_of_ok {α : Type} {w : Worker} {m : ChannelM α} {a : α} {channel : Channel}
    (h : m w.channel = .ok a channel) (other : Failure → CompileError) (next : Worker → Worker) :
    w.act m other next = next { w with channel } := by
  unfold act
  rw [h]

theorem act_of_error {α : Type} {w : Worker} {m : ChannelM α} {cause : Failure}
    {channel : Channel} (h : m w.channel = .error cause channel)
    (other : Failure → CompileError) (next : Worker → Worker) :
    w.act m other next = { w with channel, phase := .failed (w.explain other cause) } := by
  unfold act
  rw [h]

/-- What is done to the channel of a worker succeeds, or the worker fails. -/
theorem act_cases {α : Type} (w : Worker) (m : ChannelM α) (other : Failure → CompileError)
    (next : Worker → Worker) :
    (∃ a channel, m w.channel = .ok a channel ∧ w.act m other next = next { w with channel }) ∨
      ∃ cause channel, m w.channel = .error cause channel ∧ (w.act m other next).HasFailed := by
  cases h : m w.channel with
  | ok a channel => exact .inl ⟨a, channel, rfl, act_of_ok h other next⟩
  | error cause channel =>
    rw [act_of_error h]
    exact .inr ⟨cause, channel, rfl, _, rfl⟩

theorem runStatement_cases {α : Type} (w : Worker) (s : Located) (rest : List Located)
    (m : ChannelM α) :
    (∃ a channel, m w.channel = .ok a channel ∧
        w.runStatement s rest m = { w with channel, todo := rest, phase := .ready }) ∨
      ∃ cause channel, m w.channel = .error cause channel ∧
        (w.runStatement s rest m).HasFailed :=
  w.act_cases m _ _

theorem beginPass_cases (w : Worker) (left : Nat) :
    (∃ channel, w.block.enter w.channel = .ok ⟨⟩ channel ∧
        w.beginPass left = { w with channel, passesLeft := left, todo := w.block.statements }) ∨
      ∃ cause channel, w.block.enter w.channel = .error cause channel ∧
        (w.beginPass left).HasFailed := by
  unfold beginPass Block.enter
  cases w.block.directive with
  | some directive =>
    rcases w.act_cases (ChannelM.follow directive) .channel
        fun w => { w with passesLeft := left, todo := w.block.statements } with
      ⟨t, channel, hfollow, he⟩ | ⟨cause, channel, hfollow, hf⟩
    · exact .inl ⟨channel, ChannelM.bind_of_ok hfollow, he⟩
    · exact .inr ⟨cause, channel, ChannelM.bind_of_error hfollow, hf⟩
  | none => exact .inl ⟨w.channel, rfl, rfl⟩

end Worker

namespace Ensemble

/-- The link to which worker `i` comes with its next step, if it is a member, and its clock. -/
def arrival? (e : Ensemble) (i : Nat) : Option (Nat × Nat) := do
  let w ← e.workers[i]?
  match w.phase, w.todo with
  | .ready, s :: _ =>
    match s.statement with
    | .meet link => do
      let r ← e.links[link]?
      if r.isMember w.output then some (link, w.channel.clock) else none
    | _ => none
  | _, _ => none

/-- What can make worker `w` fail in its next step. -/
inductive Fault (e : Ensemble) (w : Worker) : Prop where
  | enter {left : Nat} {cause : Failure} {channel : Channel} (ready : w.phase = .ready)
      (done : w.todo = []) (passes : w.passesLeft = left + 1)
      (refused : w.block.enter w.channel = .error cause channel)
  | flush {cause : Failure} {channel : Channel} (ready : w.phase = .ready) (done : w.todo = [])
      (passes : w.passesLeft = 0) (refused : ChannelM.flush w.channel = .error cause channel)
  | submit {cause : UnknownTrack} {track : Track} (ready : w.phase = .ready)
      (refused : e.sequence.submit w.output track = .error cause)
  | operate {s : Located} {rest : List Located} {op : Operation} {cause : Failure}
      {channel : Channel} (ready : w.phase = .ready) (todo : w.todo = s :: rest)
      (operation : s.statement.operation? = some op)
      (refused : op.perform w.channel = .error cause channel)
  | release {s : Located} {rest : List Located} {link joinTime : Nat} {r r' : Rendezvous}
      {cause : Failure} {channel : Channel} (ready : w.phase = .ready) (todo : w.todo = s :: rest)
      (meet : s.statement = .meet link) (found : e.links[link]? = some r)
      (arrival : r.arrive w.output w.channel.clock = (.released joinTime, r'))
      (refused : ChannelM.leapTo joinTime w.channel = .error cause channel)
  | wake {s : Located} {rest : List Located} {link generation joinTime : Nat} {r : Rendezvous}
      {cause : Failure} {channel : Channel} (waiting : w.phase = .waiting link generation)
      (todo : w.todo = s :: rest) (found : e.links[link]? = some r)
      (woken : r.wake? generation = some joinTime)
      (refused : ChannelM.leapTo joinTime w.channel = .error cause channel)

/-- A worker fails only once. -/
theorem Fault.active {e : Ensemble} {w : Worker} (h : e.Fault w) : ¬ w.HasFailed := by
  cases h with
  | wake waiting => exact Worker.not_hasFailed_of_waiting waiting
  | enter ready | flush ready | submit ready | operate ready | release ready =>
    exact Worker.not_hasFailed_of_ready ready

/-- What a step of worker `i`, which is `w`, can be. -/
inductive Move (e : Ensemble) (i : Nat) (w : Worker) : Option (Nat × Nat) → Ensemble → Prop where
  | beginPass {left : Nat} {channel : Channel} (ready : w.phase = .ready) (done : w.todo = [])
      (passes : w.passesLeft = left + 1) (entered : w.block.enter w.channel = .ok ⟨⟩ channel) :
      Move e i w none { e with
        workers := e.workers.set i
          { w with channel, passesLeft := left, todo := w.block.statements } }
  | finish {t : Nat} {channel : Channel} {sequence : Sequence} (ready : w.phase = .ready)
      (done : w.todo = []) (passes : w.passesLeft = 0)
      (flushed : ChannelM.flush w.channel = .ok t channel)
      (submitted : e.sequence.submit w.output channel.track = .ok sequence) :
      Move e i w none { e with
        workers := e.workers.set i { w with channel, phase := .finished }
        sequence }
  | operate {s : Located} {rest : List Located} {op : Operation} {reply : Reply}
      {channel : Channel} (ready : w.phase = .ready) (todo : w.todo = s :: rest)
      (operation : s.statement.operation? = some op)
      (performed : op.perform w.channel = .ok reply channel) :
      Move e i w none { e with
        workers := e.workers.set i { w with channel, todo := rest, phase := .ready } }
  | pass {s : Located} {rest : List Located} {link : Nat} {r r' : Rendezvous}
      (ready : w.phase = .ready) (todo : w.todo = s :: rest) (meet : s.statement = .meet link)
      (found : e.links[link]? = some r)
      (arrival : r.arrive w.output w.channel.clock = (.stranger, r')) :
      Move e i w none { e with
        workers := e.workers.set i { w with todo := rest }
        links := e.links.set link r' }
  | wait {s : Located} {rest : List Located} {link generation : Nat} {r r' : Rendezvous}
      (ready : w.phase = .ready) (todo : w.todo = s :: rest) (meet : s.statement = .meet link)
      (found : e.links[link]? = some r)
      (arrival : r.arrive w.output w.channel.clock = (.waiting generation, r')) :
      Move e i w (some (link, w.channel.clock)) { e with
        workers := e.workers.set i { w with phase := .waiting link generation }
        links := e.links.set link r' }
  | release {s : Located} {rest : List Located} {link joinTime t : Nat} {r r' : Rendezvous}
      {channel : Channel} (ready : w.phase = .ready) (todo : w.todo = s :: rest)
      (meet : s.statement = .meet link) (found : e.links[link]? = some r)
      (arrival : r.arrive w.output w.channel.clock = (.released joinTime, r'))
      (leapt : ChannelM.leapTo joinTime w.channel = .ok t channel) :
      Move e i w (some (link, w.channel.clock)) { e with
        workers := e.workers.set i { w with channel, todo := rest, phase := .ready }
        links := e.links.set link r' }
  | wake {s : Located} {rest : List Located} {link generation joinTime t : Nat} {r : Rendezvous}
      {channel : Channel} (waiting : w.phase = .waiting link generation)
      (todo : w.todo = s :: rest) (found : e.links[link]? = some r)
      (woken : r.wake? generation = some joinTime)
      (leapt : ChannelM.leapTo joinTime w.channel = .ok t channel) :
      Move e i w none { e with
        workers := e.workers.set i { w with channel, todo := rest, phase := .ready } }
  | fail {arrival : Option (Nat × Nat)} {w' : Worker} {links : List Rendezvous}
      (fault : e.Fault w) (failed : w'.HasFailed) :
      Move e i w arrival { e with workers := e.workers.set i w', links }

variable {e e' : Ensemble} {i : Nat} {w : Worker}

theorem arrival?_of_meet (hi : e.workers[i]? = some w) {s : Located} {rest : List Located}
    {link : Nat} {r : Rendezvous} (ready : w.phase = .ready) (todo : w.todo = s :: rest)
    (meet : s.statement = .meet link) (found : e.links[link]? = some r) :
    e.arrival? i = if r.isMember w.output then some (link, w.channel.clock) else none := by
  simp [arrival?, hi, ready, todo, meet, found]

theorem of_arrival? {link clock : Nat} (h : e.arrival? i = some (link, clock)) :
    ∃ w s rest r, e.workers[i]? = some w ∧ w.phase = .ready ∧ w.todo = s :: rest ∧
      s.statement = .meet link ∧ e.links[link]? = some r ∧ r.isMember w.output = true ∧
      clock = w.channel.clock := by
  unfold arrival? at h
  obtain ⟨w, hi, h⟩ := Option.bind_eq_some_iff.1 h
  split at h
  · next s rest ready todo =>
    split at h
    · next l meet =>
      obtain ⟨r, found, h⟩ := Option.bind_eq_some_iff.1 h
      split at h
      · next hmember =>
        cases h
        exact ⟨w, s, rest, r, hi, ready, todo, meet, found, hmember, rfl⟩
      · cases h
    · cases h
  · cases h

theorem arrival?_of_operation (hi : e.workers[i]? = some w) {s : Located} {rest : List Located}
    {op : Operation} (ready : w.phase = .ready) (todo : w.todo = s :: rest)
    (operation : s.statement.operation? = some op) : e.arrival? i = none := by
  unfold arrival?
  rw [hi]
  dsimp only [bind, Option.bind]
  rw [ready, todo]
  cases hs : s.statement with
  | meet link =>
    rw [hs] at operation
    cases operation
  | _ => simp only [hs]

theorem move_meet (hi : e.workers[i]? = some w) {s : Located} {rest : List Located} {link : Nat}
    {r : Rendezvous} (ready : w.phase = .ready) (todo : w.todo = s :: rest)
    (meet : s.statement = .meet link) (found : e.links[link]? = some r) :
    Move e i w (e.arrival? i) (e.meet i w s rest link r) := by
  have harrival := arrival?_of_meet hi ready todo meet found
  unfold Ensemble.meet
  cases h : r.arrive w.output w.channel.clock with
  | mk arrival r' =>
    cases arrival with
    | stranger =>
      have hno := (Rendezvous.of_arrive_stranger h).1
      rw [harrival, if_neg (by simpa [Rendezvous.isMember] using hno)]
      exact .pass ready todo meet found h
    | waiting generation =>
      have hid := (Rendezvous.of_arrive_waiting h).1
      rw [harrival, if_pos (by simpa [Rendezvous.isMember] using hid)]
      exact .wait ready todo meet found h
    | released joinTime =>
      have hid := (Rendezvous.of_arrive_released h).1
      rw [harrival, if_pos (by simpa [Rendezvous.isMember] using hid)]
      dsimp only
      rcases w.runStatement_cases s rest (ChannelM.leapTo joinTime) with
        ⟨t, channel, leapt, he⟩ | ⟨cause, channel, refused, hf⟩
      · rw [he]
        exact .release ready todo meet found h leapt
      · exact .fail (.release ready todo meet found h refused) hf

theorem move_finish {arrival : Option (Nat × Nat)} (ready : w.phase = .ready)
    (done : w.todo = []) (passes : w.passesLeft = 0) (harrival : arrival = none) :
    Move e i w arrival (e.finish i w) := by
  subst harrival
  unfold Ensemble.finish
  rcases w.act_cases ChannelM.flush .channel fun w => { w with phase := .finished } with
    ⟨t, channel, flushed, he⟩ | ⟨cause, channel, refused, reason, hf⟩
  · rw [he]
    dsimp only
    rw [if_pos (by simp [Worker.isFinished])]
    split
    · next sequence submitted => exact .finish ready done passes flushed submitted
    · next cause refused => exact .fail (.submit ready refused) ⟨_, rfl⟩
  · dsimp only
    rw [if_neg (by simp [Worker.isFinished, hf])]
    exact .fail (.flush ready done passes refused) ⟨reason, hf⟩

/-- Every step is a move of the worker that takes it. -/
theorem move_of_step? (h : e.step? i = some e') :
    ∃ w, e.workers[i]? = some w ∧ Move e i w (e.arrival? i) e' := by
  obtain ⟨w, hw, h⟩ := Option.bind_eq_some_iff.1 h
  refine ⟨w, hw, ?_⟩
  unfold stepWorker? at h
  split at h
  · next ready done =>
    have harrival : e.arrival? i = none := by simp [arrival?, hw, ready, done]
    split at h
    · next left passes =>
      cases h
      rw [harrival]
      rcases w.beginPass_cases left with
        ⟨channel, entered, he⟩ | ⟨cause, channel, refused, hf⟩
      · rw [he]
        exact .beginPass ready done passes entered
      · exact .fail (.enter ready done passes refused) hf
    · next passes =>
      cases h
      exact move_finish ready done passes harrival
  · next s rest ready todo =>
    split at h
    · next link meet =>
      obtain ⟨r, found, rfl⟩ := Option.map_eq_some_iff.1 h
      exact move_meet hw ready todo meet found
    · next hmeet =>
      obtain ⟨op, operation, rfl⟩ := Option.map_eq_some_iff.1 h
      rw [arrival?_of_operation hw ready todo operation]
      rcases w.runStatement_cases s rest op.perform with
        ⟨reply, channel, performed, he⟩ | ⟨cause, channel, refused, hf⟩
      · rw [he]
        exact .operate ready todo operation performed
      · exact .fail (.operate ready todo operation refused) hf
  · next link generation s rest waiting todo =>
    have harrival : e.arrival? i = none := by simp [arrival?, hw, waiting]
    obtain ⟨r, found, h⟩ := Option.bind_eq_some_iff.1 h
    obtain ⟨joinTime, woken, h⟩ := Option.bind_eq_some_iff.1 h
    cases h
    rw [harrival]
    rcases w.runStatement_cases s rest (ChannelM.leapTo joinTime) with
      ⟨t, channel, leapt, he⟩ | ⟨cause, channel, refused, hf⟩
    · rw [he]
      exact .wake waiting todo found woken leapt
    · exact .fail (.wake waiting todo found woken refused) hf
  all_goals cases h

/-- Some worker takes a step. -/
def Step (e e' : Ensemble) : Prop :=
  ∃ i, e.step? i = some e'

/-- Workers take steps in any order. -/
abbrev Steps : Ensemble → Ensemble → Prop :=
  Relation.ReflTransGen Step

/-- Each of some workers in turn takes a step, if it can. -/
def takeTurns (e : Ensemble) (turns : List Nat) : Ensemble :=
  turns.foldl (fun e i => (e.step? i).getD e) e

theorem steps_takeTurns (e : Ensemble) (turns : List Nat) : Steps e (e.takeTurns turns) := by
  induction turns generalizing e with
  | nil => exact .refl
  | cons i rest ih =>
    show Steps e (((e.step? i).getD e).takeTurns rest)
    cases h : e.step? i with
    | none => exact ih e
    | some e' => exact (ih e').head ⟨i, h⟩

theorem step_of_next? (h : e.next? = some e') : Step e e' := by
  obtain ⟨i, -, hi⟩ := List.exists_of_findSome?_eq_some h
  exact ⟨i, hi⟩

/-- Settling is one of the orders in which the workers can take their steps. -/
theorem steps_settle (e : Ensemble) : Steps e e.settle := by
  fun_induction settle e with
  | case1 e e' h ih => exact ih.head (step_of_next? h)
  | case2 e h => exact .refl

end Ensemble

/-! ## The first state -/

/-- The channels of a pool exist. -/
def ChannelPool.Playable (pool : ChannelPool) : Prop :=
  ∀ n ∈ pool.melodic ++ pool.percussion, n ≤ 15

theorem ChannelPool.playable_full : ({} : ChannelPool).Playable := by
  unfold ChannelPool.Playable
  decide

theorem ChannelPool.Playable.take? {pool pool' : ChannelPool} {percussion : Bool} {n : Nat}
    (h : pool.Playable) (htake : pool.take? percussion = some (n, pool')) :
    n ≤ 15 ∧ pool'.Playable := by
  obtain ⟨hmelodic, hpercussion⟩ := List.forall_mem_append.1 h
  unfold ChannelPool.take? at htake
  split at htake <;> split at htake <;> cases htake
  · next hlist =>
    rw [hlist] at hpercussion
    obtain ⟨hn, hrest⟩ := List.forall_mem_cons.1 hpercussion
    exact ⟨hn, List.forall_mem_append.2 ⟨hmelodic, hrest⟩⟩
  · next hlist =>
    rw [hlist] at hmelodic
    obtain ⟨hn, hrest⟩ := List.forall_mem_cons.1 hmelodic
    exact ⟨hn, List.forall_mem_append.2 ⟨hrest, hpercussion⟩⟩

namespace Composition

/-- The workers for blocks, on channels with these numbers and from this slot on. -/
def crew (timing : Timing) (slot : Nat) : List (Block × Nat) → List Worker
  | [] => []
  | (b, number) :: rest => .start b slot number timing :: crew timing (slot + 1) rest

theorem crew_getElem? {timing : Timing} {slot i : Nat} {l : List (Block × Nat)} {w : Worker}
    (h : (crew timing slot l)[i]? = some w) :
    ∃ b number, l[i]? = some (b, number) ∧ w = .start b (slot + i) number timing := by
  induction l generalizing slot i with
  | nil => cases h
  | cons p rest ih =>
    cases i with
    | zero =>
      cases h
      exact ⟨p.1, p.2, rfl, rfl⟩
    | succ i =>
      obtain ⟨b, number, hb, rfl⟩ := ih (show (crew timing (slot + 1) rest)[i]? = _ from h)
      exact ⟨b, number, hb, by rw [show slot + 1 + i = slot + (i + 1) by omega]⟩

theorem length_crew (timing : Timing) (slot : Nat) (l : List (Block × Nat)) :
    (crew timing slot l).length = l.length := by
  induction l generalizing slot with
  | nil => rfl
  | cons p rest ih => simp [crew, ih]

/-- Enlisting gives each block a number, a worker and an empty slot. -/
theorem exists_numbers_of_enlist {timing : Timing} {pool : ChannelPool}
    {sequence sequence' : Sequence} {blocks : List Block} {workers : List Worker}
    (h : enlist timing pool sequence blocks = .ok (workers, sequence')) :
    ∃ numbers : List Nat, numbers.length = blocks.length ∧
      workers = crew timing sequence.slots.length (blocks.zip numbers) ∧
      sequence' = { sequence with
        slots := sequence.slots ++ numbers.map fun channel => { channel } } := by
  induction blocks generalizing pool sequence workers with
  | nil =>
    cases h
    exact ⟨[], rfl, rfl, by simp⟩
  | cons b rest ih =>
    unfold enlist at h
    cases hp : pool.take? b.percussion with
    | none =>
      rw [hp] at h
      cases h
    | some taken =>
      obtain ⟨number, pool'⟩ := taken
      rw [hp] at h
      dsimp only at h
      cases hr : enlist timing pool' (sequence.reserve number).2 rest with
      | error e =>
        rw [hr] at h
        cases h
      | ok found =>
        rw [hr] at h
        cases h
        obtain ⟨numbers, hlen, hw, hs⟩ := ih hr
        refine ⟨number :: numbers, by simp [hlen], ?_, ?_⟩
        · rw [hw, List.zip_cons_cons, crew]
          simp [Sequence.reserve]
        · rw [hs]
          simp [Sequence.reserve]

/-- The ensemble of a composition: a fresh worker and an empty slot for each block. -/
theorem exists_numbers_of_ensemble {c : Composition} {timing : Timing} {e : Ensemble}
    (h : c.ensemble timing = .ok e) :
    ∃ numbers : List Nat, numbers.length = c.blocks.length ∧
      e = { workers := crew timing 0 (c.blocks.zip numbers)
            links := c.links
            sequence := { timing, slots := numbers.map fun channel => { channel } } } := by
  unfold ensemble at h
  cases hr : enlist timing {} { timing } c.blocks with
  | error e =>
    rw [hr] at h
    cases h
  | ok found =>
    obtain ⟨workers, sequence⟩ := found
    rw [hr] at h
    obtain ⟨numbers, hlen, hw, hs⟩ := exists_numbers_of_enlist hr
    refine ⟨numbers, hlen, ?_⟩
    dsimp only [bind, Except.bind] at h
    split at h
    · cases h
    · cases h
      rw [hw, hs]
      simp

theorem links_ensemble {c : Composition} {timing : Timing} {e : Ensemble}
    (h : c.ensemble timing = .ok e) : e.links = c.links := by
  obtain ⟨numbers, -, rfl⟩ := exists_numbers_of_ensemble h
  rfl

theorem length_workers_ensemble {c : Composition} {timing : Timing} {e : Ensemble}
    (h : c.ensemble timing = .ok e) : e.workers.length = c.blocks.length := by
  obtain ⟨numbers, hlen, rfl⟩ := exists_numbers_of_ensemble h
  show (crew timing 0 (c.blocks.zip numbers)).length = _
  rw [length_crew, List.length_zip, hlen, Nat.min_self]

theorem length_slots_ensemble {c : Composition} {timing : Timing} {e : Ensemble}
    (h : c.ensemble timing = .ok e) : e.sequence.slots.length = c.blocks.length := by
  obtain ⟨numbers, hlen, rfl⟩ := exists_numbers_of_ensemble h
  rw [List.length_map, hlen]

/-- Worker `i` is to play block `i`, and slot `i` waits for its track. -/
theorem exists_block_of_ensemble {c : Composition} {timing : Timing} {e : Ensemble} {i : Nat}
    {w : Worker} (h : c.ensemble timing = .ok e) (hi : e.workers[i]? = some w) :
    ∃ b number, c.blocks[i]? = some b ∧ e.sequence.slots[i]? = some { channel := number } ∧
      w = .start b i number timing := by
  obtain ⟨numbers, -, rfl⟩ := exists_numbers_of_ensemble h
  obtain ⟨b, number, hb, rfl⟩ := crew_getElem? hi
  obtain ⟨hblock, hnumber⟩ := List.getElem?_zip_eq_some.1 hb
  refine ⟨b, number, hblock, ?_, ?_⟩
  · rw [List.getElem?_map, hnumber]
    rfl
  · rw [Nat.zero_add]

theorem number_le_of_enlist {timing : Timing} {pool : ChannelPool} {sequence sequence' : Sequence}
    {blocks : List Block} {workers : List Worker} (hpool : pool.Playable)
    (h : enlist timing pool sequence blocks = .ok (workers, sequence')) :
    ∀ w ∈ workers, w.channel.number ≤ 15 := by
  induction blocks generalizing pool sequence workers with
  | nil =>
    cases h
    exact fun w hw => absurd hw List.not_mem_nil
  | cons b rest ih =>
    unfold enlist at h
    cases htake : pool.take? b.percussion with
    | none =>
      rw [htake] at h
      cases h
    | some taken =>
      obtain ⟨number, pool'⟩ := taken
      rw [htake] at h
      dsimp only at h
      obtain ⟨hn, hpool'⟩ := hpool.take? htake
      cases hrest : enlist timing pool' (sequence.reserve number).2 rest with
      | error cause =>
        rw [hrest] at h
        cases h
      | ok found =>
        rw [hrest] at h
        cases h
        exact List.forall_mem_cons.2 ⟨hn, ih hpool' hrest⟩

/-- The channels that are handed out exist. -/
theorem number_le_of_ensemble {c : Composition} {timing : Timing} {e : Ensemble}
    (h : c.ensemble timing = .ok e) : ∀ w ∈ e.workers, w.channel.number ≤ 15 := by
  unfold ensemble at h
  cases hr : enlist timing {} { timing } c.blocks with
  | error e =>
    rw [hr] at h
    cases h
  | ok found =>
    rw [hr] at h
    dsimp only [bind, Except.bind] at h
    split at h
    · cases h
    · cases h
      exact number_le_of_enlist ChannelPool.playable_full hr

/-- An ensemble keeps the state in which it finds the links. -/
theorem ensemble_with_links {c : Composition} {timing : Timing} {e : Ensemble}
    (h : c.ensemble timing = .ok e) (links : List Rendezvous) :
    ({ c with links } : Composition).ensemble timing = .ok { e with links } := by
  unfold ensemble at h ⊢
  cases hr : enlist timing {} { timing } c.blocks with
  | error cause =>
    rw [hr] at h
    cases h
  | ok found =>
    rw [hr] at h
    dsimp only [bind, Except.bind] at h ⊢
    split at h
    · cases h
    · cases h
      rfl

end Composition

end MidiScore
