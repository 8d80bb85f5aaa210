import MidiScore.Proofs.Channel.Fixes
import MidiScore.Proofs.Rendezvous.Rounds

/-!
# Members go on together

In a company everyone has a channel, comes with the clock of it and leaps to the join time. Its
assembly takes steps of an assembly, so what holds of rounds holds of it; and as no join time is
earlier than a clock with which a member came, all channels stand at the join time after a meeting.
-/

namespace MidiScore

namespace Channel

/-- After a leap the clock shows the tick, unless it was past it. -/
theorem clock_of_leapTo {tick t : Nat} {c c' : Channel}
    (h : ChannelM.leapTo tick c = .ok t c') : c'.clock = max c.clock tick := by
  rw [clock_of_drain (leapTo_eq_drain h)]
  omega

/-- The clock after a leap, or none if it failed, and the channel that is left. -/
def leapt (c : Channel) (tick : Nat) : Option Nat × Channel :=
  match ChannelM.leapTo tick c with
  | .ok _ c' => (some c'.clock, c')
  | .error _ c' => (none, c')

theorem of_leapt {c : Channel} {tick clock : Nat} (h : (c.leapt tick).1 = some clock) :
    clock = max c.clock tick := by
  unfold leapt at h
  split at h
  · next hleap =>
    cases h
    exact clock_of_leapTo hleap
  · cases h

end Channel

/-- An assembly in which everyone comes with the clock of a channel of its own. -/
structure Company where
  assembly : Assembly
  channels : Nat → Channel
  /-- The clock of each after each meeting, or none where the leap to the join time failed. -/
  clocks : Nat → List (Option Nat) := fun _ => []

namespace Company

open Assembly (note note_self note_of_ne of_getElem?_note getElem?_note_of_some)

/-- One leaps to the join time of a meeting. -/
def leap (c : Company) (id joinTime : Nat) : Company :=
  { c with
    channels := Function.update c.channels id ((c.channels id).leapt joinTime).2
    clocks := note c.clocks id ((c.channels id).leapt joinTime).1 }

/-- The steps of an assembly, in which those outside may do anything to their channels. -/
inductive Step (c : Company) : Company → Prop where
  | play {id : Nat} (outside : c.assembly.inside id = none) (channel : Channel) :
      Step c { c with channels := Function.update c.channels id channel }
  | pass {id : Nat} {link : Rendezvous} (outside : c.assembly.inside id = none)
      (arrival : c.assembly.link.arrive id (c.channels id).clock = (.stranger, link)) :
      Step c { c with assembly := { c.assembly with link } }
  | wait {id generation : Nat} {link : Rendezvous} (outside : c.assembly.inside id = none)
      (arrival : c.assembly.link.arrive id (c.channels id).clock = (.waiting generation, link)) :
      Step c { c with assembly := { c.assembly with
        link
        inside := Function.update c.assembly.inside id (some generation)
        calls := note c.assembly.calls id (c.channels id).clock } }
  | release {id joinTime : Nat} {link : Rendezvous} (outside : c.assembly.inside id = none)
      (arrival : c.assembly.link.arrive id (c.channels id).clock = (.released joinTime, link)) :
      Step c (leap { c with assembly := { c.assembly with
        link
        calls := note c.assembly.calls id (c.channels id).clock
        returns := note c.assembly.returns id joinTime } } id joinTime)
  | wake {id generation joinTime : Nat} (waiting : c.assembly.inside id = some generation)
      (woken : c.assembly.link.wake? generation = some joinTime) :
      Step c (leap { c with assembly := { c.assembly with
        inside := Function.update c.assembly.inside id none
        returns := note c.assembly.returns id joinTime } } id joinTime)
  | doze {id generation : Nat} (waiting : c.assembly.inside id = some generation)
      (asleep : c.assembly.link.wake? generation = none) : Step c c

/-- The steps of a company in any order. -/
abbrev Steps : Company → Company → Prop :=
  Relation.ReflTransGen Step

/-- The clocks of a company belong to its calls and returns. -/
structure Timed (c : Company) : Prop where
  paired : c.assembly.Paired
  lastCall : ∀ id generation, c.assembly.inside id = some generation →
    (c.assembly.calls id).getLast? = some (c.channels id).clock
  length : ∀ id, (c.clocks id).length = (c.assembly.returns id).length
  met : ∀ (id r clock : Nat), (c.clocks id)[r]? = some (some clock) →
    ∃ call joinTime, (c.assembly.calls id)[r]? = some call ∧
      (c.assembly.returns id)[r]? = some joinTime ∧ clock = max call joinTime

variable {c c' : Company} {id joinTime : Nat}

/-- One that returned from its last call, with which its clock agrees, leaps to the join time. -/
theorem Timed.leap {a : Assembly} (h : c.Timed) (paired : a.Paired) (outside : a.inside id = none)
    (hinside : ∀ j, j ≠ id → a.inside j = c.assembly.inside j)
    (hcalls : ∀ j, j ≠ id → a.calls j = c.assembly.calls j)
    (hearlier : ∀ (r t : Nat), (c.assembly.calls id)[r]? = some t → (a.calls id)[r]? = some t)
    (hreturns : a.returns = note c.assembly.returns id joinTime)
    (hlast : (a.calls id).getLast? = some (c.channels id).clock) :
    (Company.leap { c with assembly := a } id joinTime).Timed := by
  refine ⟨paired, ?_, ?_, ?_⟩
  · intro j generation hin
    show (a.calls j).getLast? = some (Function.update c.channels id _ j).clock
    have hj : j ≠ id := by
      rintro rfl
      exact absurd (hin.symm.trans outside) (by simp)
    rw [Function.update_of_ne hj, hcalls j hj]
    exact h.lastCall j generation ((hinside j hj).symm.trans hin)
  · intro j
    show (note c.clocks id _ j).length = (a.returns j).length
    rw [hreturns]
    by_cases hj : j = id
    · subst hj
      rw [note_self, note_self, List.length_append, List.length_append, h.length j]
      rfl
    · rw [note_of_ne hj, note_of_ne hj, h.length j]
  · intro j r clock hclock
    show ∃ call joinTime, (a.calls j)[r]? = some call ∧ (a.returns j)[r]? = some joinTime ∧
      clock = max call joinTime
    rw [hreturns]
    rcases of_getElem?_note hclock with hold | ⟨rfl, rfl, hnew⟩
    · obtain ⟨call, join, hcall, hjoin, rfl⟩ := h.met j r clock hold
      refine ⟨call, join, ?_, getElem?_note_of_some hjoin, rfl⟩
      by_cases hj : j = id
      · subst hj
        exact hearlier r call hcall
      · rw [hcalls j hj]
        exact hcall
    · refine ⟨(c.channels j).clock, joinTime, ?_, ?_, Channel.of_leapt hnew.symm⟩
      · have hpair := paired j
        rw [outside, hreturns, note_self, List.length_append] at hpair
        rw [List.getLast?_eq_getElem?, hpair, ← h.length j] at hlast
        exact hlast
      · rw [note_self]
        show (c.assembly.returns j ++ [joinTime])[(c.clocks j).length]? = some joinTime
        rw [h.length j, List.getElem?_concat_length]

theorem Timed.step (h : c.Timed) (hs : Step c c') : c'.Timed := by
  cases hs with
  | @play id outside channel =>
    refine ⟨h.paired, fun j generation hin => ?_, h.length, h.met⟩
    have hj : j ≠ id := by
      rintro rfl
      exact absurd (hin.symm.trans outside) (by simp)
    show (c.assembly.calls j).getLast? = some (Function.update c.channels id channel j).clock
    rw [Function.update_of_ne hj]
    exact h.lastCall j generation hin
  | pass => exact ⟨h.paired, h.lastCall, h.length, h.met⟩
  | @wait id generation link outside arrival =>
    refine ⟨h.paired.step (.wait outside arrival), fun j g hin => ?_, h.length, ?_⟩
    · show (note c.assembly.calls id _ j).getLast? = _
      by_cases hj : j = id
      · subst hj
        rw [note_self, List.getLast?_concat]
      · rw [note_of_ne hj]
        exact h.lastCall j g ((Function.update_of_ne hj ..).symm.trans hin)
    · intro j r clock hclock
      obtain ⟨call, join, hcall, hjoin, rfl⟩ := h.met j r clock hclock
      exact ⟨call, join, getElem?_note_of_some hcall, hjoin, rfl⟩
  | @release id joinTime link outside arrival =>
    refine h.leap (h.paired.step (.release outside arrival)) outside (fun _ _ => rfl)
      (fun j hj => note_of_ne hj) (fun r t ht => getElem?_note_of_some ht) rfl ?_
    show (note c.assembly.calls id _ id).getLast? = _
    rw [note_self, List.getLast?_concat]
  | @wake id generation joinTime waiting woken =>
    exact h.leap (h.paired.step (.wake waiting woken)) (Function.update_self ..)
      (fun j hj => Function.update_of_ne hj ..) (fun _ _ => rfl) (fun _ _ ht => ht) rfl
      (h.lastCall id generation waiting)
  | doze => exact h

theorem Timed.steps (h : c.Timed) (hs : Steps c c') : c'.Timed := by
  induction hs with
  | refl => exact h
  | tail _ hstep ih => exact ih.step hstep

/-- The step of one: it comes with its clock if it is outside, and otherwise it wakes. -/
def turn (c : Company) (id : Nat) : Company :=
  match c.assembly.inside id with
  | some generation =>
    match c.assembly.link.wake? generation with
    | some joinTime => leap { c with assembly := { c.assembly with
        inside := Function.update c.assembly.inside id none
        returns := note c.assembly.returns id joinTime } } id joinTime
    | none => c
  | none =>
    match c.assembly.link.arrive id (c.channels id).clock with
    | (.stranger, link) => { c with assembly := { c.assembly with link } }
    | (.waiting generation, link) => { c with assembly := { c.assembly with
        link
        inside := Function.update c.assembly.inside id (some generation)
        calls := note c.assembly.calls id (c.channels id).clock } }
    | (.released joinTime, link) => leap { c with assembly := { c.assembly with
        link
        calls := note c.assembly.calls id (c.channels id).clock
        returns := note c.assembly.returns id joinTime } } id joinTime

end Company

/-! ## Agreement -/

end MidiScore
