import MidiScore.Channel.Keys
import MidiScore.Channel.Settings

/-!
# Actions and their workload

Running an action is an operation on the channel. A strike promises its release and nothing else
promises anything, so an action adds less to the workload of a channel than it weighs. This is why
running what is due comes to an end.
-/

namespace MidiScore

/-- The most actions that come of an action: a strike brings a release with it. -/
def Action.weight : Action → Nat
  | .play .. => 2
  | _ => 1

theorem Action.weight_pos (a : Action) : 0 < a.weight := by
  cases a <;> simp [weight]

theorem Action.length_le_weights (as : List Action) : as.length ≤ total (as.map weight) := by
  have h : ∀ n ∈ as.map weight, 0 < n := by
    simp only [List.mem_map, forall_exists_index, and_imp, forall_apply_eq_imp_iff₂]
    exact fun a _ => a.weight_pos
  simpa using length_le_total h

/-- The most actions that can still run. -/
def Channel.workload (c : Channel) : Nat :=
  c.pending.weigh Action.weight

namespace ChannelM

/-- Runs an action at the current tick. -/
def run : Action → ChannelM Unit
  | .noteOff key velocity => noteOff key velocity
  | .play key delta duration offVelocity => strike key delta duration offVelocity
  | .setDynamic dynamic => setDynamic dynamic
  | .turnKnob controller value => setController controller value
  | .pressPedal controller => pressPedal controller
  | .releasePedal controller => releasePedal controller
  | .bend value => setBend value
  | .resetBend => setBend bendCenter

/-- Runs actions one after the other, until one fails. -/
def runAll : List Action → ChannelM Unit
  | [] => return ()
  | a :: rest => do
    run a
    runAll rest

/-! ## What an operation adds to the workload -/

/-- An operation adds at most `n` to the workload, whether or not it fails. -/
def Adds {α : Type} (n : Nat) (m : ChannelM α) : Prop :=
  ∀ c, (m.leaves c).workload ≤ c.workload + n

section Adds

variable {α β : Type} {m : ChannelM α} {i j : Nat}

theorem Adds.mono (h : Adds i m) (hij : i ≤ j) : Adds j m := fun c =>
  Nat.le_trans (h c) (by omega)

theorem Adds.bind {f : α → ChannelM β} (hm : Adds i m) (hf : ∀ a, Adds j (f a)) :
    Adds (i + j) (m >>= f) := by
  intro c
  have h := hm c
  cases hc : m c with
  | ok a c' =>
    rw [leaves_of_ok hc] at h
    rw [leaves_bind_of_ok f hc]
    have := hf a c'
    omega
  | error e c' =>
    rw [leaves_of_error hc] at h
    rw [leaves_bind_of_error f hc]
    omega

theorem adds_of_pending (h : ∀ c, (m.leaves c).pending = c.pending) : Adds 0 m := by
  intro c
  simp [Channel.workload, h c]

theorem adds_pure (a : α) : Adds 0 (pure a : ChannelM α) := fun _ => Nat.le_refl _

theorem adds_throw (e : Failure) : Adds 0 (throw e : ChannelM α) := fun _ => Nat.le_refl _

theorem adds_get : Adds 0 (get : ChannelM Channel) := fun _ => Nat.le_refl _

theorem adds_modify {f : Channel → Channel} (h : ∀ c, (f c).pending = c.pending) :
    Adds 0 (modify f) :=
  adds_of_pending fun c => h c

theorem adds_ofOption (o : Option α) : Adds 0 (ofOption o) := by
  cases o
  · exact adds_throw _
  · exact adds_pure _

theorem adds_ofExcept (r : Except Failure α) : Adds 0 (ofExcept r) := by
  cases r
  · exact adds_throw _
  · exact adds_pure _

theorem adds_check (msg : Message) : Adds 0 (check msg) :=
  adds_of_pending fun c => by simp

/-- Two operations that add nothing add nothing together. -/
theorem Adds.then {f : α → ChannelM β} (hm : Adds 0 m) (hf : ∀ a, Adds j (f a)) :
    Adds j (m >>= f) :=
  (hm.bind hf).mono (by omega)

end Adds

theorem pending_emit (c : Channel) (msg : Message) : (c.emit msg).pending = c.pending := by
  unfold Channel.emit
  split <;> rfl

theorem adds_send (msg : Message) : Adds 0 (send msg) :=
  (adds_check msg).then fun _ => adds_modify fun c => pending_emit c msg

theorem adds_setNote (key : Nat) (state : NoteState) : Adds 0 (setNote key state) :=
  adds_modify fun _ => rfl

theorem adds_noteOn (key velocity : Nat) : Adds 0 (noteOn key velocity) :=
  adds_get.then fun _ => (adds_send _).then fun _ => adds_setNote _ _

theorem adds_noteOff (key velocity : Nat) : Adds 0 (noteOff key velocity) :=
  adds_get.then fun _ => (adds_check _).then fun _ =>
    (adds_modify fun c => by simp [pending_emit]).then fun _ => adds_setNote _ _

theorem adds_retractRelease (key : Nat) : Adds 0 (retractRelease key) := by
  refine adds_get.then fun c => (adds_ofExcept _).then fun release => ?_
  split
  · exact Adds.then (adds_modify fun _ => rfl) fun _ => adds_pure _
  · exact adds_pure _

theorem adds_attackVelocity (key : Nat) (delta : Int) : Adds 0 (attackVelocity key delta) := by
  refine (adds_retractRelease key).then fun joined => ?_
  split
  · exact adds_get.then fun _ => adds_ofOption _
  · exact adds_get.then fun _ => adds_ofOption _

theorem adds_later (delta : Int) (action : Action) : Adds action.weight (later delta action) := by
  refine adds_get.then fun c => (adds_ofOption _).then fun tick => fun c => ?_
  simp only [leaves_modify, Channel.workload, Agenda.weigh_push]
  omega

theorem adds_strike (key : Nat) (delta : Int) (duration offVelocity : Nat) :
    Adds 1 (strike key delta duration offVelocity) :=
  (adds_attackVelocity key delta).then fun _ => (adds_noteOn key _).then fun _ =>
    adds_later _ _

theorem adds_setDynamic (d : Dynamic) : Adds 0 (setDynamic d) :=
  adds_modify fun _ => rfl

theorem adds_setController (number value : Nat) : Adds 0 (setController number value) :=
  adds_get.then fun _ => (adds_send _).then fun _ => adds_modify fun _ => rfl

theorem adds_setBend (value : Nat) : Adds 0 (setBend value) :=
  adds_get.then fun _ => (adds_send _).then fun _ => adds_modify fun _ => rfl

/-- An action adds less than it weighs. -/
theorem adds_run (a : Action) : Adds (a.weight - 1) (run a) := by
  cases a with
  | noteOff key velocity => exact adds_noteOff key velocity
  | play key delta duration offVelocity => exact adds_strike key delta duration offVelocity
  | setDynamic d => exact adds_setDynamic d
  | turnKnob controller value => exact adds_setController controller value
  | pressPedal controller => exact adds_setController controller _
  | releasePedal controller => exact adds_setController controller _
  | bend value => exact adds_setBend value
  | resetBend => exact adds_setBend _

theorem adds_runAll (as : List Action) :
    Adds (total (as.map Action.weight) - as.length) (runAll as) := by
  induction as with
  | nil => exact adds_pure _
  | cons a rest ih =>
    refine ((adds_run a).bind fun _ => ih).mono ?_
    have := Action.length_le_weights rest
    have := a.weight_pos
    simp only [List.length_cons, List.map_cons, total_cons]
    omega

end ChannelM

namespace Channel

open ChannelM

/-- Running a bucket that was taken out of the agenda leaves less to do. -/
theorem workload_runAll_lt {c c' : Channel} {target tick now : Nat} {actions : List Action}
    {rest : Agenda Action} (hpop : c.pending.popDue? target = some (tick, actions, rest))
    (hrun : (runAll actions).leaves { c with pending := rest, clock := now } = c') :
    c'.workload < c.workload := by
  have hadds := adds_runAll actions { c with pending := rest, clock := now }
  have hweigh := Agenda.weigh_of_popDue? (w := Action.weight) hpop
  have hpos : 0 < actions.length := List.length_pos_iff.2 (Agenda.ne_nil_of_popDue? hpop)
  have hlen := Action.length_le_weights actions
  rw [hrun] at hadds
  simp only [workload] at hadds hweigh ⊢
  omega

end Channel

end MidiScore
