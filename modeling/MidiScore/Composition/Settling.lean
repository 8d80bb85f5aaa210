import MidiScore.Composition.Ensemble

/-!
# Letting an ensemble settle

Every step of a worker takes it closer to its end, so any order of steps comes to rest.
`Ensemble.settle` always lets the first worker go on that can.
-/

namespace MidiScore

/-! ## The work of one worker -/

namespace Worker

theorem work_of_finished {w : Worker} (h : w.phase = .finished) : w.work = 0 := by
  simp [work, h]

theorem work_of_failed {w : Worker} {cause : CompileError} (h : w.phase = .failed cause) :
    w.work = 0 := by
  simp [work, h]

/-- If what follows a success leaves less than `n` work, so does the action. -/
theorem work_act_lt {α : Type} {w : Worker} {m : ChannelM α} {other : Failure → CompileError}
    {next : Worker → Worker} {n : Nat} (hn : 0 < n)
    (h : ∀ channel, (next { w with channel }).work < n) : (w.act m other next).work < n := by
  unfold act
  split
  · exact h _
  · simpa [work] using hn

theorem work_runStatement_lt {α : Type} {w : Worker} {s : Located} {rest : List Located}
    (m : ChannelM α) (h : w.todo = s :: rest) (hp : 0 < w.work) :
    (w.runStatement s rest m).work < w.work := by
  refine work_act_lt hp fun channel => ?_
  cases hw : w.phase with
  | ready =>
    simp only [work, h, hw, List.length_cons]
    omega
  | waiting link generation =>
    simp only [work, h, hw, List.length_cons]
    omega
  | finished => simp [work_of_finished hw] at hp
  | failed cause => simp [work_of_failed hw] at hp

theorem work_beginPass_lt {w : Worker} {left : Nat} (hr : w.phase = .ready) (ht : w.todo = [])
    (hl : w.passesLeft = left + 1) : (w.beginPass left).work < w.work := by
  have key : ∀ channel : Channel,
      ({ w with channel, passesLeft := left, todo := w.block.statements } : Worker).work
        < w.work := by
    intro channel
    simp only [work, hr, ht, hl, Nat.add_mul, List.length_nil]
    omega
  unfold beginPass
  split
  · exact work_act_lt (by simp [work, hr]) key
  · exact key w.channel

end Worker

/-! ## The work of all -/

namespace Ensemble

/-- A bound on the number of steps that all workers together have still to take. -/
def work (e : Ensemble) : Nat :=
  total (e.workers.map (·.work))

theorem total_set_lt {l : List Worker} {i : Nat} {w w' : Worker} (hi : l[i]? = some w)
    (h : w'.work < w.work) :
    total ((l.set i w').map (·.work)) < total (l.map (·.work)) := by
  induction l generalizing i with
  | nil => simp at hi
  | cons x l ih =>
    cases i with
    | zero =>
      obtain rfl : x = w := by simpa using hi
      simpa using h
    | succ i =>
      have := ih (i := i) (by simpa using hi)
      simpa using this

variable {e e' : Ensemble} {i : Nat} {w : Worker}

/-- A step changes the work as it changes that of the worker that takes it. -/
theorem work_lt_of_set {w' : Worker} (hi : e.workers[i]? = some w)
    (hw : e'.workers = e.workers.set i w') (h : w'.work < w.work) : e'.work < e.work := by
  simpa [work, hw] using total_set_lt hi h

theorem work_meet_lt {s : Located} {rest : List Located} {link : Nat} {r : Rendezvous}
    (hi : e.workers[i]? = some w) (hr : w.phase = .ready) (ht : w.todo = s :: rest) :
    (e.meet i w s rest link r).work < e.work := by
  have hp : 0 < w.work := by simp [Worker.work, hr]
  refine work_lt_of_set hi rfl ?_
  dsimp only
  split
  · simp [Worker.work, hr, ht]
  · simp [Worker.work, hr]
  · exact Worker.work_runStatement_lt _ ht hp

theorem work_finish_lt (hi : e.workers[i]? = some w) (hr : w.phase = .ready) :
    (e.finish i w).work < e.work := by
  have hp : 0 < w.work := by simp [Worker.work, hr]
  unfold finish
  dsimp only
  split
  · next hf =>
    split
    · refine work_lt_of_set hi rfl ?_
      rw [Worker.work_of_finished (by simpa [Worker.isFinished] using hf)]
      exact hp
    · exact work_lt_of_set hi rfl (by simpa [Worker.work] using hp)
  · exact work_lt_of_set hi rfl (Worker.work_act_lt hp fun _ => by simpa [Worker.work] using hp)

/-- A step leaves less work. -/
theorem work_stepWorker?_lt (hi : e.workers[i]? = some w) (h : e.stepWorker? i w = some e') :
    e'.work < e.work := by
  unfold stepWorker? at h
  split at h
  · next hr ht =>
    split at h
    · next left hl =>
      obtain rfl := Option.some.inj h
      exact work_lt_of_set hi rfl (Worker.work_beginPass_lt hr ht hl)
    · obtain rfl := Option.some.inj h
      exact work_finish_lt hi hr
  · next s rest hr ht =>
    split at h
    · obtain ⟨r, _, rfl⟩ := Option.map_eq_some_iff.1 h
      exact work_meet_lt hi hr ht
    · obtain ⟨op, _, rfl⟩ := Option.map_eq_some_iff.1 h
      exact work_lt_of_set hi rfl
        (Worker.work_runStatement_lt _ ht (by simp [Worker.work, hr]))
  · next link generation s rest hr ht =>
    obtain ⟨r, _, h⟩ := Option.bind_eq_some_iff.1 h
    obtain ⟨joinTime, _, h⟩ := Option.bind_eq_some_iff.1 h
    obtain rfl := Option.some.inj h
    exact work_lt_of_set hi rfl
      (Worker.work_runStatement_lt _ ht (by simp [Worker.work, hr]))
  all_goals simp at h

theorem work_step?_lt (h : e.step? i = some e') : e'.work < e.work := by
  obtain ⟨w, hi, h⟩ := Option.bind_eq_some_iff.1 h
  exact work_stepWorker?_lt hi h

/-! ## Settling -/

/-- A step of the first worker that can take one. -/
def next? (e : Ensemble) : Option Ensemble :=
  (List.range e.workers.length).findSome? e.step?

theorem work_next?_lt (h : e.next? = some e') : e'.work < e.work := by
  obtain ⟨i, _, hi⟩ := List.exists_of_findSome?_eq_some h
  exact work_step?_lt hi

/-- The ensemble once no worker can take a step any more. -/
def settle (e : Ensemble) : Ensemble :=
  match _ : e.next? with
  | some e' => e'.settle
  | none => e
termination_by e.work
decreasing_by exact work_next?_lt (by assumption)

theorem settle_of_next?_eq_some (h : e.next? = some e') : e.settle = e'.settle := by
  rw [settle]
  split <;> simp_all

theorem settle_of_next?_eq_none (h : e.next? = none) : e.settle = e := by
  rw [settle]
  split <;> simp_all

end Ensemble

end MidiScore
