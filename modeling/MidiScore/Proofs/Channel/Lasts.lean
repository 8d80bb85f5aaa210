import MidiScore.Proofs.Agenda
import MidiScore.Proofs.Channel.Fixes
import MidiScore.Proofs.Channel.Keys

/-!
# What outlasts an operation that may fail

`Lasts P m` says that `m` leaves a channel with `P` where it found one, whether or not it fails. To
outlast an operation is `Compositional`, and what outlasts the actions that fall due outlasts the
advance of the clock (`Ticking`).
-/

namespace MidiScore.ChannelM

variable {α β : Type} {P : Channel → Prop}

theorem leaves_get_bind (f : Channel → ChannelM α) (c : Channel) :
    (get >>= f).leaves c = (f c).leaves c := rfl

theorem leaves_map (f : α → β) (m : ChannelM α) (c : Channel) :
    (f <$> m).leaves c = m.leaves c := by
  show (m >>= fun a => pure (f a)).leaves c = m.leaves c
  cases hm : m c with
  | ok a c' => rw [leaves_bind_of_ok _ hm, leaves_of_ok hm, leaves_pure]
  | error e c' => rw [leaves_bind_of_error _ hm, leaves_of_error hm]

theorem leaves_acknowledge (m : ChannelM Unit) (c : Channel) :
    (acknowledge m).leaves c = m.leaves c :=
  leaves_map (fun _ => Reply.done) m c

/-- Whether or not `m` fails, it leaves a channel with `P` where it found one. -/
def Lasts (P : Channel → Prop) (m : ChannelM α) : Prop :=
  ∀ c, P c → P (m.leaves c)

theorem lasts_get : Lasts P get := fun _ => id

theorem Lasts.bind {m : ChannelM α} {f : α → ChannelM β} (hm : Lasts P m)
    (hf : ∀ a, Lasts P (f a)) : Lasts P (m >>= f) := by
  intro c hc
  have h := hm c hc
  cases hr : m c with
  | ok a c₁ =>
    rw [leaves_of_ok hr] at h
    rw [leaves_bind_of_ok f hr]
    exact hf a c₁ h
  | error e c₁ =>
    rw [leaves_of_error hr] at h
    rwa [leaves_bind_of_error f hr]

theorem lasts_flush (hleap : ∀ tick, Lasts P (leapTo tick)) : Lasts P flush := by
  intro c hc
  unfold ChannelM.flush leaves
  fun_induction Channel.flush c with
  | case1 c _ => exact hc
  | case2 c last _ t₁ c₁ hrun ih =>
    have h := hleap last c hc
    rw [leaves_of_ok hrun] at h
    exact ih h
  | case3 c last _ e c₁ hrun =>
    have h := hleap last c hc
    rwa [leaves_of_error hrun] at h

/-- What outlasts the parts of an operation outlasts the operation. -/
theorem compositional_lasts : Compositional (Lasts P) where
  pure _ := fun _ => id
  throw _ := fun _ => id
  get := lasts_get
  bind := Lasts.bind
  flush_of_leapTo := lasts_flush

theorem lasts_performAll {ops : List Operation} (h : ∀ op ∈ ops, Lasts P op.perform) {c : Channel}
    (hc : P c) : P (c.performAll ops) := by
  induction ops generalizing c with
  | nil => exact hc
  | cons op rest ih =>
    obtain ⟨hop, hrest⟩ := List.forall_mem_cons.1 h
    exact ih hrest (hop c hc)

/-- `D due` is an invariant of a channel that still has to run `due`, also if it loses what it had
to run because an action fails. -/
structure Surviving (D : List Action → Channel → Prop) : Prop where
  pop : ∀ {c : Channel} {target tick : Nat} {actions : List Action} {rest : Agenda Action},
    c.pending.popDue? target = some (tick, actions, rest) → D [] c →
    D actions { c with pending := rest, clock := max c.clock tick }
  run : ∀ {a : Action} {due : List Action} {c : Channel}, D (a :: due) c → D due ((run a).leaves c)
  lose : ∀ {due : List Action} {c : Channel}, D due c → D [] c
  rest : ∀ {c : Channel} {target : Nat}, c.pending.popDue? target = none → c.clock ≤ target →
    D [] c → D [] { c with clock := target }

namespace Surviving

variable {D : List Action → Channel → Prop} (hD : Surviving D)

include hD

theorem runAll {as : List Action} {c : Channel} (hc : D as c) :
    D [] ((runAll as).leaves c) := by
  induction as generalizing c with
  | nil => exact hc
  | cons a rest ih =>
    have h := hD.run hc
    show D [] ((ChannelM.run a >>= fun _ => ChannelM.runAll rest).leaves c)
    cases hr : ChannelM.run a c with
    | ok u c₁ =>
      rw [leaves_of_ok hr] at h
      rw [leaves_bind_of_ok _ hr]
      exact ih h
    | error e c₁ =>
      rw [leaves_of_error hr] at h
      rw [leaves_bind_of_error _ hr]
      exact hD.lose h

theorem drain {c : Channel} {target : Nat} (hc : D [] c) (hle : c.clock ≤ target) :
    D [] (leaves (Channel.drain target) c) := by
  unfold leaves
  fun_induction Channel.drain target c with
  | case1 c hpop => exact hD.rest hpop hle hc
  | case2 c tick actions rest hpop u c₁ hrun ih =>
    have h := hD.runAll (hD.pop hpop hc)
    rw [leaves_of_ok hrun] at h
    refine ih h ?_
    rw [(fixes_clock_runAll actions).of_ok hrun]
    exact Nat.max_le.2 ⟨hle, Agenda.le_of_popDue? hpop⟩
  | case3 c tick actions rest hpop e c₁ hrun =>
    have h := hD.runAll (hD.pop hpop hc)
    rwa [leaves_of_error hrun] at h

theorem advance (ticks : Nat) : Lasts (D []) (advance ticks) := by
  intro c hc
  unfold leaves
  rw [Channel.advance_eq_bind]
  cases hn : Bounded.nat? 64 (c.clock + ticks) with
  | none => exact hc
  | some target =>
    obtain ⟨-, rfl⟩ := Bounded.nat?_eq_some_iff.1 hn
    exact hD.drain hc (Nat.le_add_right ..)

end Surviving

/-- What a property has to outlast so that it outlasts the advance of the clock. -/
structure Ticking (P : Channel → Prop) : Prop where
  run : ∀ a, Lasts P (run a)
  pop : ∀ {c : Channel} {target tick : Nat} {actions : List Action} {rest : Agenda Action},
    c.pending.popDue? target = some (tick, actions, rest) → P c →
    P { c with pending := rest, clock := max c.clock tick }
  rest : ∀ {c : Channel} {target : Nat}, c.pending.popDue? target = none → c.clock ≤ target → P c →
    P { c with clock := target }

/-- What a property has to outlast so that it outlasts the advance of the clock, if it says that
only actions with `Q` are pending. -/
structure TickingOn (Q : Action → Prop) (P : Channel → Prop) : Prop where
  owed : ∀ {c : Channel}, P c → ∀ p ∈ c.pending.toList, Q p.2
  run : ∀ a, Q a → Lasts P (run a)
  pop : ∀ {c : Channel} {target tick : Nat} {actions : List Action} {rest : Agenda Action},
    c.pending.popDue? target = some (tick, actions, rest) → P c →
    P { c with pending := rest, clock := max c.clock tick }
  rest : ∀ {c : Channel} {target : Nat}, c.pending.popDue? target = none → c.clock ≤ target → P c →
    P { c with clock := target }

namespace TickingOn

variable {Q : Action → Prop} (hP : TickingOn Q P)

include hP

theorem surviving : Surviving fun due c => (∀ a ∈ due, Q a) ∧ P c where
  pop {_ _ tick _ _} hpop hc := by
    refine ⟨fun a ha => hP.owed hc.2 (tick, a) ?_, hP.pop hpop hc.2⟩
    rw [Agenda.toList_of_popDue? hpop]
    exact List.mem_append_left _ (List.mem_map_of_mem ha)
  run hc := by
    obtain ⟨ha, hdue⟩ := List.forall_mem_cons.1 hc.1
    exact ⟨hdue, hP.run _ ha _ hc.2⟩
  lose hc := ⟨nofun, hc.2⟩
  rest hpop hle hc := ⟨nofun, hP.rest hpop hle hc.2⟩

theorem runAll {as : List Action} (has : ∀ a ∈ as, Q a) : Lasts P (runAll as) :=
  fun _ hc => (hP.surviving.runAll ⟨has, hc⟩).2

theorem drain {c : Channel} {target : Nat} (hc : P c) (hle : c.clock ≤ target) :
    P (leaves (Channel.drain target) c) :=
  (hP.surviving.drain ⟨nofun, hc⟩ hle).2

theorem advance (ticks : Nat) : Lasts P (advance ticks) :=
  fun c hc => (hP.surviving.advance ticks c ⟨nofun, hc⟩).2

theorem leapTo (tick : Nat) : Lasts P (leapTo tick) :=
  lasts_get.bind fun _ => hP.advance _

end TickingOn

namespace Ticking

variable (hP : Ticking P)

include hP

theorem on : TickingOn (fun _ => True) P :=
  ⟨fun _ _ _ => trivial, fun a _ => hP.run a, hP.pop, hP.rest⟩

theorem runAll (as : List Action) : Lasts P (runAll as) :=
  hP.on.runAll fun _ _ => trivial

theorem advance (ticks : Nat) : Lasts P (advance ticks) :=
  hP.on.advance ticks

end Ticking

end MidiScore.ChannelM
