import MidiScore.Channel.Workload

/-!
# The clock of a channel

Advancing the clock runs every action that falls due on the way, in the order of the agenda and each
at its own tick, also those that are promised meanwhile. An action that fails stops the clock at its
tick; what stood behind it in its bucket is lost. Flushing advances until nothing is pending.
-/

namespace MidiScore

namespace Channel

open ChannelM

/-- Runs every action due by `target`, bucket by bucket, and then sets the clock to `target`. -/
def drain (target : Nat) (c : Channel) : EStateM.Result Failure Channel Nat :=
  match _ : c.pending.popDue? target with
  | none => .ok target { c with clock := target }
  | some (tick, actions, rest) =>
    match _ : runAll actions { c with pending := rest, clock := max c.clock tick } with
    | .ok _ c' => drain target c'
    | .error e c' => .error e c'
termination_by c.workload
decreasing_by
  exact workload_runAll_lt (by assumption) (leaves_of_ok (by assumption))

theorem workload_drain_le {target t : Nat} {c c' : Channel} (h : drain target c = .ok t c') :
    c'.workload ≤ c.workload := by
  fun_induction drain target c with
  | case1 c _ => cases h; exact Nat.le_refl _
  | case2 c tick actions rest hpop _ c₁ hrun ih =>
    exact Nat.le_trans (ih h) (Nat.le_of_lt (workload_runAll_lt hpop (leaves_of_ok hrun)))
  | case3 => cases h

theorem workload_drain_lt {target t : Nat} {c c' : Channel} (h : drain target c = .ok t c')
    (hdue : (c.pending.popDue? target).isSome) : c'.workload < c.workload := by
  unfold drain at h
  split at h
  · next hpop => simp [hpop] at hdue
  · next hpop =>
    split at h
    · next hrun =>
      exact Nat.lt_of_le_of_lt (workload_drain_le h) (workload_runAll_lt hpop (leaves_of_ok hrun))
    · cases h

end Channel

namespace ChannelM

/-- Advances the clock by `ticks` and runs what falls due on the way. Returns the new tick. -/
def advance (ticks : Nat) : ChannelM Nat := do
  let target ← ofOption (Bounded.nat? 64 ((← get).clock + ticks))
  Channel.drain target

/-- Advances the clock by the ticks of a beat. -/
def advanceBeat (b : Beat) : ChannelM Nat := do
  advance ((← get).timing.ticksInBeat b)

/-- Moves the clock forward to a tick. A tick that has passed is the current one. -/
def leapTo (tick : Nat) : ChannelM Nat := do
  advance (tick - (← get).clock)

/-- Moves the clock forward to the next tick that a directive allows. -/
def follow (d : Directive) : ChannelM Nat := do
  let c ← get
  leapTo (← ofOption (d.alignedTick? c.clock c.timing))

end ChannelM

namespace Channel

open ChannelM

/-- To advance is to drain what is due by the new tick, if the clock can show it. -/
theorem advance_eq_bind (ticks : Nat) (c : Channel) :
    advance ticks c = (ofOption (Bounded.nat? 64 (c.clock + ticks)) >>= drain) c :=
  rfl

theorem leapTo_eq_drain {c c' : Channel} {tick t : Nat} (h : leapTo tick c = .ok t c') :
    drain (c.clock + (tick - c.clock)) c = .ok t c' := by
  have hadv : advance (tick - c.clock) c = .ok t c' := h
  rw [advance_eq_bind] at hadv
  cases hn : Bounded.nat? 64 (c.clock + (tick - c.clock)) with
  | none =>
    rw [hn] at hadv
    cases hadv
  | some n =>
    obtain ⟨-, rfl⟩ := Bounded.nat?_eq_some_iff.1 hn
    rw [hn] at hadv
    exact hadv

theorem workload_leapTo_lt {c c' : Channel} {last t : Nat} (hlast : c.pending.lastDue? = some last)
    (h : leapTo last c = .ok t c') : c'.workload < c.workload :=
  workload_drain_lt (leapTo_eq_drain h)
    (Agenda.popDue?_isSome_of_lastDue? hlast (by omega))

/-- Runs every pending action, also those promised meanwhile, and moves the clock to the last. -/
def flush (c : Channel) : EStateM.Result Failure Channel Nat :=
  match _ : c.pending.lastDue? with
  | none => .ok c.clock c
  | some last =>
    match _ : leapTo last c with
    | .ok _ c' => flush c'
    | .error e c' => .error e c'
termination_by c.workload
decreasing_by
  exact workload_leapTo_lt (by assumption) (by assumption)

end Channel

namespace ChannelM

/-- Runs every pending action and moves the clock to the last. Returns the new tick. -/
def flush : ChannelM Nat :=
  Channel.flush

end ChannelM

end MidiScore
