import MidiScore.Proofs.Agenda
import MidiScore.Proofs.Channel.Clocked
import MidiScore.Proofs.Channel.Keys

/-!
# The clock may be advanced in steps

Draining to a tick and then to a later one does what draining to the later one does at once
(`drain_drain`): what is due by the first tick is taken out in the same order and run on the same
ticks, and the clock of a channel with nothing due may stand anywhere before what is due next. So
nothing but the clock says that an advance was cut in two, and if an action fails, it fails in both
runs and leaves the same channel (`advance_in_steps`).
-/

namespace MidiScore

theorem Agenda.popDue?_mono {α : Type} {q : Agenda α} {near far : Nat} {r : Nat × List α × Agenda α}
    (h : q.popDue? near = some r) (hle : near ≤ far) : q.popDue? far = some r := by
  unfold popDue? at h ⊢
  split at h
  · cases h
  · split at h
    · next ht =>
      cases h
      exact if_pos (Nat.le_trans ht hle)
    · cases h

namespace Channel

open ChannelM

variable {c c' : Channel} {near far : Nat}

/-- Where the clock stands before what is due next makes no difference. -/
theorem drain_of_idle (h : c.pending.popDue? near = none) (hclock : c.clock ≤ near) :
    drain far { c with clock := near } = drain far c := by
  cases hfar : c.pending.popDue? far with
  | none => rw [drain_of_not_due hfar, drain_of_not_due (c := { c with clock := near }) hfar]
  | some r =>
    obtain ⟨tick, actions, rest⟩ := r
    have hlate : near < tick := by
      obtain ⟨a, as, rfl⟩ := List.exists_cons_of_ne_nil (Agenda.ne_nil_of_popDue? hfar)
      exact Agenda.lt_of_popDue?_eq_none h (tick, a) (by simp [Agenda.toList_of_popDue? hfar])
    rw [drain_of_due hfar, drain_of_due (c := { c with clock := near }) hfar]
    dsimp only
    rw [Nat.max_eq_right (Nat.le_of_lt hlate),
      Nat.max_eq_right (Nat.le_trans hclock (Nat.le_of_lt hlate))]

/-- Draining to a tick on the way makes no difference. -/
theorem drain_drain (hclock : c.clock ≤ near) (hle : near ≤ far) :
    (match drain near c with
      | .ok _ c' => drain far c'
      | .error e c' => .error e c') = drain far c := by
  fun_induction drain near c with
  | case1 c hpop => exact drain_of_idle hpop hclock
  | case2 c tick actions rest hpop u c₁ hrun ih =>
    rw [drain_of_due (Agenda.popDue?_mono hpop hle), hrun]
    refine ih ?_
    rw [(fixes_clock_runAll actions).of_ok hrun]
    exact Nat.max_le.2 ⟨hclock, Agenda.le_of_popDue? hpop⟩
  | case3 c tick actions rest hpop e c₁ hrun =>
    rw [drain_of_due (Agenda.popDue?_mono hpop hle), hrun]

/-- On its way the channel `c` passes `c'`: to go on from there is to go on from `c`. -/
structure Passes (c c' : Channel) : Prop where
  clock_le : c.clock ≤ c'.clock
  drain_eq : ∀ target, c'.clock ≤ target → drain target c' = drain target c

theorem Passes.refl (c : Channel) : Passes c c :=
  ⟨Nat.le_refl _, fun _ _ => rfl⟩

theorem Passes.trans {c'' : Channel} (h : Passes c c') (h' : Passes c' c'') : Passes c c'' := by
  refine ⟨Nat.le_trans h.clock_le h'.clock_le, fun target ht => ?_⟩
  rw [h'.drain_eq target ht, h.drain_eq target (Nat.le_trans h'.clock_le ht)]

end Channel

open Channel

/-- The operation advances the clock and does nothing else. -/
def Operation.advances : Operation → Bool
  | advance _ | advanceBeat _ | leapTo _ | follow _ | flush => true
  | _ => false

namespace ChannelM

variable {c₀ c c' : Channel} {ticks tick t : Nat}

theorem advance_eq_drain (h : c.clock + ticks < 1 <<< 64) :
    advance ticks c = drain (c.clock + ticks) c := by
  rw [advance_eq_bind, Bounded.nat?_of_lt h]
  rfl

theorem leapTo_eq_drain_of_le (hclock : c.clock ≤ tick) (h : tick < 1 <<< 64) :
    leapTo tick c = drain tick c := by
  have hsum : c.clock + (tick - c.clock) = tick := Nat.add_sub_cancel' hclock
  show advance (tick - c.clock) c = _
  rw [advance_eq_drain (by omega), hsum]

theorem passes_advance (ticks : Nat) : Keeps (Passes c₀) (advance ticks) := by
  intro c t c' hc h
  have hd := drain_of_advance h
  have hclock := clock_of_drain hd
  refine hc.trans ⟨by omega, fun target htarget => ?_⟩
  rw [← drain_drain (Nat.le_add_right c.clock ticks) (hclock ▸ htarget), hd]

theorem passes_leapTo (tick : Nat) : Keeps (Passes c₀) (leapTo tick) :=
  compositional_keeps.bind compositional_keeps.get fun _ => passes_advance _

/-- What only advances the clock leaves a channel that is passed on the way. -/
theorem passes_perform {op : Operation} (hop : op.advances) : Keeps (Passes c₀) op.perform := by
  have hK : Compositional (Keeps (Passes c₀)) := compositional_keeps
  cases op with
  | advance ticks => exact hK.map (passes_advance ticks)
  | advanceBeat beat => exact hK.map (hK.bind hK.get fun _ => passes_advance _)
  | leapTo tick => exact hK.map (passes_leapTo tick)
  | follow directive =>
    exact hK.map (hK.bind hK.get fun _ => hK.bind (hK.ofOption _) fun _ => passes_leapTo _)
  | flush => exact hK.map (hK.flush_of_leapTo passes_leapTo)
  | _ => cases hop

/-- To advance by `a` ticks and then by `b` is to advance by `a + b`, with the same outcome and the
same channel, also if an action fails; and whatever advanced the clock to a tick that is not past
`tick`, to leap to `tick` is to leap there directly. -/
theorem advance_in_steps (c : Channel) :
    (∀ a b, c.clock + a + b < 1 <<< 64 →
      (do let _ ← advance a; advance b : ChannelM Nat) c = advance (a + b) c) ∧
    ∀ op reply c' tick, Operation.advances op → op.perform c = .ok reply c' → c'.clock ≤ tick →
      tick < 1 <<< 64 → leapTo tick c' = leapTo tick c := by
  refine ⟨fun a b h => ?_, fun op reply c' tick hop hrun hle htick => ?_⟩
  · rw [advance_eq_drain (by omega), ← drain_drain (Nat.le_add_right c.clock a) (by omega)]
    cases hd : drain (c.clock + a) c with
    | ok t c₁ =>
      have hclock := clock_of_drain hd
      have hadvance : advance a c = .ok t c₁ := (advance_eq_drain (by omega)).trans hd
      rw [bind_of_ok hadvance, advance_eq_drain (by omega), hclock, Nat.add_assoc]
    | error e c₁ =>
      have hadvance : advance a c = .error e c₁ := (advance_eq_drain (by omega)).trans hd
      rw [bind_of_error hadvance]
  · have hway := passes_perform hop c reply c' (.refl c) hrun
    rw [leapTo_eq_drain_of_le hle htick,
      leapTo_eq_drain_of_le (Nat.le_trans hway.clock_le hle) htick, hway.drain_eq tick hle]

/-- A strum, and a knob that cannot be turned when its time comes. -/
def strummedRun : List Operation :=
  [.advance 10, .playSound ⟨.chord ⟨[.c, .e, .g]⟩, .gliscando⟩ .quarter,
   .later 500 (.turnKnob 200 1)]

/-- The channel after `strummedRun`. Its tones enter on the ticks 10, 90 and 170. -/
def strummed : Channel :=
  ({ track := { channel := 0 } } : Channel).performAll strummedRun

/-- One cut is on the tick of a tone, ahead of an action that fails, the other between tones. -/
theorem advance_in_steps_strummed :
    strummed.clock + 80 + 420 < 1 <<< 64 ∧
      (do let _ ← advance 80; advance 420 : ChannelM Nat) strummed = advance 500 strummed ∧
      (Operation.leapTo 120).advances ∧
      ∃ reply c', (Operation.leapTo 120).perform strummed = .ok reply c' ∧ c'.clock ≤ 400 ∧
        400 < 1 <<< 64 ∧ leapTo 400 c' = leapTo 400 strummed := by
  have hsum : strummed.clock + 80 + 420 < 1 <<< 64 := by decide +kernel
  obtain ⟨reply, hrun⟩ :=
    eq_ok_of_succeeds (m := (Operation.leapTo 120).perform) (c := strummed) (by decide +kernel)
  have hclock : ((Operation.leapTo 120).perform.leaves strummed).clock ≤ 400 := by decide +kernel
  exact ⟨hsum, (advance_in_steps strummed).1 80 420 hsum, rfl, reply, _, hrun, hclock, by decide,
    (advance_in_steps strummed).2 _ reply _ 400 rfl hrun hclock (by decide)⟩

end ChannelM

end MidiScore
