import MidiScore.Proofs.Agenda
import MidiScore.Proofs.Channel.Ensures
import MidiScore.Proofs.Channel.Fixes

/-!
# What an advance of the clock keeps

While a bucket is run, what is left of it stands ahead of the agenda. So an invariant of the clock
is indexed by the actions that are still due (`Clocked`): it takes them over from the agenda,
running the first of them leaves it with the others, and an advance keeps it for none.
-/

namespace MidiScore

/-- What is promised, behind what is still due now. -/
def Channel.owing (due : List Action) (c : Channel) : List (Nat × Action) :=
  due.map (c.clock, ·) ++ c.pending.toList

theorem Channel.lt_of_drain {target t : Nat} {c c' : Channel} (h : drain target c = .ok t c') :
    ∀ q ∈ c'.pending.toList, target < q.1 := by
  fun_induction drain target c with
  | case1 c hpop =>
    cases h
    exact Agenda.lt_of_popDue?_eq_none hpop
  | case2 _ _ _ _ _ _ _ _ ih => exact ih h
  | case3 => cases h

namespace Channel

open ChannelM

variable {c : Channel} {target tick last : Nat} {actions : List Action} {rest : Agenda Action}

theorem drain_of_not_due (h : c.pending.popDue? target = none) :
    drain target c = .ok target { c with clock := target } := by
  rw [drain]
  split
  · rfl
  · next heq =>
    rw [h] at heq
    cases heq

/-- What is due is run before anything else is drained. -/
theorem drain_of_due (h : c.pending.popDue? target = some (tick, actions, rest)) :
    drain target c =
      match runAll actions { c with pending := rest, clock := max c.clock tick } with
      | .ok _ c' => drain target c'
      | .error e c' => .error e c' := by
  rw [drain]
  split
  · next heq =>
    rw [h] at heq
    cases heq
  · next heq =>
    rw [h] at heq
    cases heq
    split
    · next hrun => rw [hrun]
    · next hrun => rw [hrun]

theorem flush_of_idle (h : c.pending.lastDue? = none) : flush c = .ok c.clock c := by
  rw [flush]
  split
  · rfl
  · next heq =>
    rw [h] at heq
    cases heq

theorem flush_of_lastDue (h : c.pending.lastDue? = some last) :
    flush c =
      match leapTo last c with
      | .ok _ c' => flush c'
      | .error e c' => .error e c' := by
  rw [flush]
  split
  · next heq =>
    rw [h] at heq
    cases heq
  · next heq =>
    rw [h] at heq
    cases heq
    split
    · next hrun => rw [hrun]
    · next hrun => rw [hrun]

end Channel

namespace ChannelM

theorem drain_of_advance {ticks t : Nat} {c c' : Channel} (h : advance ticks c = .ok t c') :
    Channel.drain (c.clock + ticks) c = .ok t c' := by
  rw [Channel.advance_eq_bind] at h
  obtain ⟨target, c₁, htarget, hd⟩ := bind_eq_ok h
  obtain ⟨hn, hc₁⟩ := ensures_ofOption (P := (· = c)) c target c₁ rfl htarget
  obtain ⟨-, rfl⟩ := Bounded.nat?_eq_some_iff.1 hn
  rwa [hc₁] at hd

theorem drain_of_advanceBeat {beat : Beat} {t : Nat} {c c' : Channel}
    (h : advanceBeat beat c = .ok t c') :
    Channel.drain (c.clock + c.timing.ticksInBeat beat) c = .ok t c' := by
  obtain ⟨_, c₁, hget, hadvance⟩ := bind_eq_ok h
  cases hget
  exact drain_of_advance hadvance

/-- The clock goes on by the ticks of a beat, and nothing that is due by then is left. -/
theorem of_advanceBeat {beat : Beat} {t : Nat} {c c' : Channel}
    (h : advanceBeat beat c = .ok t c') : c'.clock = c.clock + c.timing.ticksInBeat beat ∧
      ∀ q ∈ c'.pending.toList, c'.clock < q.1 := by
  have hd := drain_of_advanceBeat h
  have hclock := Channel.clock_of_drain hd
  refine ⟨hclock, ?_⟩
  rw [hclock]
  exact Channel.lt_of_drain hd

/-- `D due` is an invariant of a channel that still has to run `due`. -/
structure Clocked (D : List Action → Channel → Prop) : Prop where
  pop : ∀ {c : Channel} {target tick : Nat} {actions : List Action} {rest : Agenda Action},
    c.pending.popDue? target = some (tick, actions, rest) → D [] c →
      D actions { c with pending := rest, clock := max c.clock tick }
  run : ∀ a due, Ensures (D (a :: due)) (run a) fun _ => D due
  rest : ∀ {c : Channel} {target : Nat}, c.pending.popDue? target = none → c.clock ≤ target →
    D [] c → D [] { c with clock := target }

namespace Clocked

variable {D : List Action → Channel → Prop} (hD : Clocked D)

include hD

theorem runAll (as : List Action) : Ensures (D as) (runAll as) fun _ => D [] := by
  induction as with
  | nil => exact keeps_pure _
  | cons a rest ih => exact (hD.run a rest).bind fun _ => ih

theorem drain {c c' : Channel} {target t : Nat} (h : D [] c) (hle : c.clock ≤ target)
    (hd : Channel.drain target c = .ok t c') : D [] c' := by
  fun_induction Channel.drain target c with
  | case1 c hpop =>
    cases hd
    exact hD.rest hpop hle h
  | case2 c tick actions rest hpop _ c₁ hrun ih =>
    refine ih (hD.runAll actions _ _ _ (hD.pop hpop h) hrun) ?_ hd
    rw [(fixes_clock_runAll actions).of_ok hrun]
    exact Nat.max_le.2 ⟨hle, Agenda.le_of_popDue? hpop⟩
  | case3 => cases hd

theorem advance (ticks : Nat) : Keeps (D []) (advance ticks) :=
  fun _ _ _ hc h => hD.drain hc (Nat.le_add_right ..) (drain_of_advance h)

theorem advanceBeat (beat : Beat) : Keeps (D []) (advanceBeat beat) :=
  .get_bind fun _ => hD.advance _

end Clocked

end ChannelM

end MidiScore
