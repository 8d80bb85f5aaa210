import MidiScore.Proofs.Channel.Flush
import MidiScore.Proofs.Channel.Granularity
import MidiScore.Proofs.Channel.Ledger
import MidiScore.Proofs.Channel.Scheduler

/-!
# How far a flush goes

A flush leaps to the last due tick until nothing is pending, although what it runs promises more
behind that tick. It comes to a halt where everything is over: an action is over on its tick, and
a strike on the tick of its release (`Channel.horizon`). While the clock goes on, what is still owed
is over on the same tick (`Owes`), so that no leap goes past it and the last one ends there. What a
flush leaves is what any longer advance leaves, but for the clock (`flush_of_faultless`).
-/

namespace MidiScore

/-- The tick on which an action is over that falls due at `tick`. A strike lasts until its
release. -/
def Action.endTick (tick : Nat) : Action → Nat
  | .play _ _ duration _ => tick + duration
  | _ => tick

theorem Action.le_endTick (a : Action) (tick : Nat) : tick ≤ a.endTick tick := by
  cases a <;> simp [endTick]

theorem Agenda.eq_empty_of_toList {α : Type} {q : Agenda α} (h : q.toList = []) : q = .empty := by
  rw [← q.ofList_toList, h]
  rfl

namespace Channel

/-- The tick on which all that is pending is over: the latest of the clock, of the ticks on which
actions fall due and of those on which their strikes are released. -/
def horizon (c : Channel) : Nat :=
  (c.pending.toList.map fun p => p.2.endTick p.1).foldr max c.clock

/-- Run one at a time and each on its tick, no pending action fails, nor does what it promises. -/
def Faultless (c : Channel) : Prop :=
  (ChannelM.serve c.horizon c c.pending.toList).isOk

variable {c c' : Channel}

theorem horizon_le_iff {m : Nat} :
    c.horizon ≤ m ↔ c.clock ≤ m ∧ ∀ p ∈ c.pending.toList, p.2.endTick p.1 ≤ m := by
  unfold horizon
  induction c.pending.toList with
  | nil => simp
  | cons p rest ih =>
    rw [List.map_cons, List.foldr_cons, Nat.max_le, ih, List.forall_mem_cons]
    tauto

/-- From the clock on, what is still due now and what is pending is over on tick `last`. -/
structure Owes (last : Nat) (due : List Action) (c : Channel) : Prop where
  timely : ∀ p ∈ c.pending.toList, c.clock ≤ p.1
  ends : ∀ m, c.clock ≤ m → ((∀ p ∈ c.owing due, p.2.endTick p.1 ≤ m) ↔ last ≤ m)

namespace Owes

variable {last : Nat} {due : List Action} {a : Action}

theorem of_consistent (hc : c.Consistent) : Owes c.horizon [] c := by
  refine ⟨hc.timely, fun m hm => ?_⟩
  rw [horizon_le_iff, and_iff_right hm]
  rfl

/-- An action is over on the tick on which it is run, unless it makes a promise. -/
theorem settle (h : Owes last (a :: due) c) (hend : ∀ t, a.endTick t = t)
    (hclock : c'.clock = c.clock) (hpending : c'.pending = c.pending) : Owes last due c' := by
  have howing : c'.owing due = c.owing due := by
    unfold owing
    rw [hclock, hpending]
  refine ⟨by rw [hclock, hpending]; exact h.timely, fun m hm => ?_⟩
  rw [hclock] at hm
  rw [← h.ends m hm, howing]
  show _ ↔ ∀ p ∈ (c.clock, a) :: c.owing due, _
  rw [List.forall_mem_cons, hend, and_iff_right hm]

/-- A strike that is run promises a release for the tick on which it is over. -/
theorem strike {key duration offVelocity : Nat} {delta : Int}
    (h : Owes last (.play key delta duration offVelocity :: due) c)
    (hclock : c'.clock = c.clock)
    (hpending : c'.pending = c.pending.push (c.clock + duration) (.noteOff key offVelocity)) :
    Owes last due c' := by
  refine ⟨?_, fun m hm => ?_⟩
  · rw [hclock, hpending]
    rintro ⟨t, b⟩ hp
    rcases Agenda.mem_toList_push.1 hp with ⟨rfl, -⟩ | hp
    · exact Nat.le_add_right ..
    · exact h.timely _ hp
  · have howing : (c'.owing due).Perm
        ((c.clock + duration, .noteOff key offVelocity) :: c.owing due) := by
      unfold owing
      rw [hclock, hpending]
      exact ((Agenda.toList_push_perm ..).append_left _).trans List.perm_middle
    rw [hclock] at hm
    rw [← h.ends m hm]
    simp only [howing.mem_iff]
    show (∀ p ∈ (c.clock + duration, _) :: c.owing due, _) ↔ ∀ p ∈ (c.clock, _) :: c.owing due, _
    rw [List.forall_mem_cons, List.forall_mem_cons]
    rfl

/-- A strike does not last longer than what is owed. -/
theorem duration_lt {key duration offVelocity : Nat} {delta : Int}
    (h : Owes last (.play key delta duration offVelocity :: due) c) : duration ≤ last := by
  have hend := (h.ends (max c.clock last) (Nat.le_max_left ..)).2 (Nat.le_max_right ..)
    (c.clock, .play key delta duration offVelocity) List.mem_cons_self
  simp only [Action.endTick] at hend
  omega

end Owes

end Channel

namespace ChannelM

open Channel

variable {c c' : Channel} {last : Nat}

theorem tickAfter_of_lt {duration : Nat} (hd : duration < 1 <<< 63) :
    c.tickAfter duration = c.clock + duration := by
  unfold tickAfter
  rw [signed_of_lt hd, Int.toNat_natCast]

theorem owes_run (hlast : last < 1 <<< 63) (a : Action) (due : List Action) :
    Ensures (Owes last (a :: due)) (run a) fun _ => Owes last due := by
  intro c u c' hc h
  have haside : a.noteKey? = none → (∀ t, a.endTick t = t) → Owes last due c' := by
    intro hkey hend
    obtain ⟨track, controllers, dynamic, bend, rfl, -⟩ := aside_of_run hkey h
    exact hc.settle hend rfl rfl
  cases a with
  | noteOff key velocity =>
    obtain ⟨-, rfl⟩ := eq_of_noteOff h
    exact hc.settle (fun _ => rfl) rfl rfl
  | play key delta duration offVelocity =>
    have hd := tickAfter_of_lt (c := c) (Nat.lt_of_le_of_lt hc.duration_lt hlast)
    exact hc.strike ((aloof_clock.fixes_strike key delta duration offVelocity).of_ok h)
      (hd ▸ pending_of_strike h)
  | _ => exact haside rfl fun _ => rfl

theorem clocked_owes (hlast : last < 1 <<< 63) : Clocked (Owes last) where
  pop := by
    intro c target tick actions rest hpop h
    have hlist := Agenda.toList_of_popDue? hpop
    obtain ⟨a, as, rfl⟩ := List.exists_cons_of_ne_nil (Agenda.ne_nil_of_popDue? hpop)
    have hmax : max c.clock tick = tick := Nat.max_eq_right (h.timely (tick, a) (by simp [hlist]))
    rw [hmax]
    refine ⟨fun p hp => Nat.le_of_lt (Agenda.lt_of_popDue? hpop p hp), fun m hm => ?_⟩
    rw [← h.ends m (Nat.le_trans (hmax ▸ Nat.le_max_left ..) hm)]
    show _ ↔ ∀ p ∈ c.pending.toList, _
    rw [hlist]
    rfl
  run := owes_run hlast
  rest hpop hle h :=
    ⟨fun p hp => Nat.le_of_lt (Agenda.lt_of_popDue?_eq_none hpop p hp),
      fun m hm => h.ends m (Nat.le_trans hle hm)⟩

/-- No leap of a flush goes past the tick on which everything is over. -/
theorem leapTo_of_owes (hlast : last < 1 <<< 63) (h : Owes last [] c) (hle : c.clock ≤ last)
    {due : Nat} (hdue : c.pending.lastDue? = some due) :
    c.clock ≤ due ∧ due ≤ last ∧ leapTo due c = Channel.drain due c := by
  obtain ⟨a, ha⟩ := Agenda.exists_of_lastDue? hdue
  have hclock : c.clock ≤ due := h.timely (due, a) ha
  have hnear : due ≤ last :=
    Nat.le_trans (a.le_endTick due) ((h.ends last hle).2 (Nat.le_refl _) (due, a) ha)
  have hword : (1 <<< 63 : Nat) < 1 <<< 64 := by decide
  exact ⟨hclock, hnear, leapTo_eq_drain_of_le hclock (by omega)⟩

/-- A flush halts on the tick on which everything is over, if draining up to there does not
fail. -/
theorem flush_of_owes (hlast : last < 1 <<< 63) (h : Owes last [] c) (hle : c.clock ≤ last)
    {t : Nat} {c₂ : Channel} (hdrain : Channel.drain last c = .ok t c₂) :
    ∃ c', flush c = .ok last c' ∧ c'.clock = last := by
  unfold ChannelM.flush
  fun_induction Channel.flush c with
  | case1 c hnone =>
    have hempty := Agenda.toList_of_lastDue?_eq_none hnone
    have hge : last ≤ c.clock := by
      refine (h.ends c.clock (Nat.le_refl _)).1 fun p hp => ?_
      rw [Channel.owing, hempty] at hp
      cases hp
    have hclock : c.clock = last := Nat.le_antisymm hle hge
    exact ⟨c, by rw [hclock], hclock⟩
  | case2 c due hdue _ c₁ hleap ih =>
    obtain ⟨hclock, hnear, heq⟩ := leapTo_of_owes hlast h hle hdue
    rw [heq] at hleap
    have hrest := drain_drain hclock hnear
    rw [hleap] at hrest
    exact ih ((clocked_owes hlast).drain h hclock hleap) (clock_of_drain hleap ▸ hnear)
      (hrest.trans hdrain)
  | case3 c due hdue e c₁ hleap =>
    obtain ⟨hclock, hnear, heq⟩ := leapTo_of_owes hlast h hle hdue
    have hrest := drain_drain hclock hnear
    rw [← heq, hleap, hdrain] at hrest
    cases hrest

/-- A flush of what does not fail succeeds, and halts where all that is pending is over. -/
theorem flush_eq_ok (hc : c.Consistent)
    (hends : ∀ p ∈ c.pending.toList, p.2.endTick p.1 < 1 <<< 63) (hrun : c.Faultless) :
    ∃ c', flush c = .ok c.horizon c' ∧ c'.clock = c.horizon := by
  have hle : c.clock ≤ c.horizon := (horizon_le_iff.1 (Nat.le_refl _)).1
  cases hlist : c.pending.toList with
  | nil =>
    have hclock : c.horizon = c.clock := by
      unfold horizon
      rw [hlist]
      rfl
    have hnone : c.pending.lastDue? = none := by
      rw [Agenda.eq_empty_of_toList hlist]
      rfl
    exact ⟨c, hclock ▸ flush_of_idle hnone, hclock.symm⟩
  | cons p rest =>
    have hp : p ∈ c.pending.toList := hlist ▸ List.mem_cons_self
    have hlast : c.horizon < 1 <<< 63 := by
      refine Nat.lt_of_le_pred (by decide) (horizon_le_iff.2 ⟨?_, fun q hq => ?_⟩)
      · have htick := Nat.le_trans (hc.timely p hp) (p.2.le_endTick p.1)
        exact Nat.le_pred_of_lt (Nat.lt_of_le_of_lt htick (hends p hp))
      · exact Nat.le_pred_of_lt (hends q hq)
    have hserved := outcome_drain hc hle (.of_sorted c.pending.pairwise_toList)
    cases hdrain : Channel.drain c.horizon c with
    | ok t c₂ => exact flush_of_owes hlast (.of_consistent hc) hle hdrain
    | error e c₂ =>
      unfold Faultless at hrun
      rw [hdrain, served] at hserved
      cases hserve : serve c.horizon c c.pending.toList with
      | ok r =>
        rw [hserve] at hserved
        cases hserved
      | error cause =>
        rw [hserve] at hrun
        cases hrun

/-- A flush of a reachable channel in which nothing that is pending fails comes to an end, with
nothing pending and with the clock on the tick on which all that was pending is over. It leaves what
every advance leaves that goes at least as far, but for the clock, and to flush again changes
nothing. -/
theorem flush_of_faultless (hc : c.Reachable)
    (hends : ∀ p ∈ c.pending.toList, p.2.endTick p.1 < 1 <<< 63) (hrun : c.Faultless) :
    ∃ c', flush c = .ok c.horizon c' ∧ c'.clock = c.horizon ∧ c'.pending = .empty ∧
      (∀ ticks, c.horizon ≤ c.clock + ticks → c.clock + ticks < 1 <<< 64 →
        advance ticks c = .ok (c.clock + ticks) { c' with clock := c.clock + ticks }) ∧
      flush c' = .ok c'.clock c' := by
  obtain ⟨c', hflush, hclock⟩ := flush_eq_ok (consistent_of_reachable hc) hends hrun
  have hidle : c'.pending = .empty := Agenda.eq_empty_of_toList (pending_of_flush hflush)
  refine ⟨c', hflush, hclock, hidle, fun ticks hfar hn => ?_, flush_of_idle (hidle ▸ rfl)⟩
  have hway : Passes c c' :=
    compositional_keeps.flush_of_leapTo passes_leapTo c _ c' (.refl c) hflush
  have hnone : c'.pending.popDue? (c.clock + ticks) = none := by
    rw [hidle]
    rfl
  rw [advance_eq_drain hn, ← hway.drain_eq _ (hclock ▸ hfar), drain_of_not_due hnone]

/-- A strike that sounds on after everything else, and a strike and a release on one tick. -/
def lingeringRun : List Operation :=
  [.advance 10, .later 100 (.play 60 0 300 96), .later 150 (.turnKnob 72 20),
   .later 150 (.play 64 0 0 96)]

/-- The channel after `lingeringRun`. -/
def lingering : Channel :=
  ({ track := { channel := 0 } } : Channel).performAll lingeringRun

theorem flush_of_faultless_lingering :
    lingering.Reachable ∧ lingering.horizon = 410 ∧
      (∀ p ∈ lingering.pending.toList, p.2.endTick p.1 < 1 <<< 63) ∧ lingering.Faultless ∧
      ∃ c', flush lingering = .ok lingering.horizon c' ∧ c'.clock = lingering.horizon ∧
        c'.pending = .empty ∧
        advance 500 lingering =
          .ok (lingering.clock + 500) { c' with clock := lingering.clock + 500 } ∧
        flush c' = .ok c'.clock c' := by
  have hreach : lingering.Reachable :=
    ⟨{ channel := 0 }, false, .standard, _, lingeringRun, rfl, rfl⟩
  have hhorizon : lingering.horizon = 410 := by decide +kernel
  have hends : ∀ p ∈ lingering.pending.toList, p.2.endTick p.1 < 1 <<< 63 := by decide +kernel
  have hrun : lingering.Faultless := by
    unfold Channel.Faultless
    decide +kernel
  have hclock : lingering.clock = 10 := by decide +kernel
  obtain ⟨c', hflush, hc', hidle, hadvance, hagain⟩ := flush_of_faultless hreach hends hrun
  exact ⟨hreach, hhorizon, hends, hrun, c', hflush, hc', hidle,
    hadvance 500 (by omega) (by rw [hclock]; decide), hagain⟩

end ChannelM

end MidiScore
