import Mathlib.Algebra.Order.Group.Multiset
import MidiScore.Proofs.Channel.Clocked
import MidiScore.Proofs.Channel.Keys
import MidiScore.Proofs.Channel.Score
import MidiScore.Proofs.Channel.Secures
import MidiScore.Proofs.Channel.Sendable

/-!
# What was written and what is foreseen

Everything that sounds promise can be foreseen: a release and a bend are written when they fall due,
and a strike together with its release. So the notes and bends that a channel wrote since it was
`c₀` and those that it foresees are an account (`Ledger`) that running what is due does not change.
Each operation that a sound is made of enters what it means on the tick of the channel (`Plays`), or
fails because a number overflows.
-/

namespace MidiScore

namespace Action

/-- The notes and bends that come of running an action on tick `tick` of a channel with the number
and the dynamic of `c`. -/
def yields (c : Channel) (tick : Nat) : Action → List Event
  | noteOff key velocity => [⟨tick, .noteOff c.number key velocity⟩]
  | play key delta duration offVelocity =>
    [⟨tick, .noteOn c.number key (c.dynamic.louder delta)⟩,
      ⟨tick + duration, .noteOff c.number key offVelocity⟩]
  | bend value => [⟨tick, .pitchBend c.number value⟩]
  | resetBend => [⟨tick, .pitchBend c.number bendCenter⟩]
  | setDynamic _ | turnKnob .. | pressPedal _ | releasePedal _ => []

/-- What sounds promise, with numbers that can be sent. -/
def Plain : Action → Prop
  | noteOff key velocity => key ≤ 127 ∧ velocity ≤ 127
  | play key _ duration offVelocity => key ≤ 127 ∧ offVelocity ≤ 127 ∧ duration < 1 <<< 63
  | turnKnob number value => number ≤ 127 ∧ value ≤ 127
  | bend value => value ≤ bendMax
  | resetBend => True
  | setDynamic _ | pressPedal _ | releasePedal _ => False

end Action

namespace Channel

/-- How a channel writes notes: its number, its timing, what moves its pitches, its dynamic, its
mute and its slur. -/
def manner (c : Channel) : Nat × Bool × Timing × Int × Int × Dynamic × Bool × Bool :=
  (c.number, c.percussion, c.timing, c.octave, c.transposition, c.dynamic, c.muted, c.slurred)

/-- The notes and bends that come of what `c` has promised, written as `c₀` writes them. -/
def foreseen (c₀ c : Channel) : List Event :=
  c.pending.toList.flatMap fun p => p.2.yields c₀ p.1

/-- Since it was `c₀`, which neither was muted nor slurred, the channel `c` only wrote more events.
Their notes and bends and those that it foresees are `X`. -/
structure Ledger (c₀ : Channel) (X : Multiset Event) (c : Channel) : Prop where
  number_le : c₀.number ≤ 15
  audible : c₀.muted = false
  plain_slur : c₀.slurred = false
  manner : c.manner = c₀.manner
  controllerValue_le : ∀ number, c.controllerValue number ≤ 127
  plain : ∀ p ∈ c.pending.toList, p.2.Plain
  timely : ∀ p ∈ c.pending.toList, c.clock ≤ p.1
  account : ∃ events : List Event,
    c.track.log = c₀.track.log ++ (events.map some).toArray ∧
      ↑(events.filter (·.message.isNoteOrBend)) + ↑(foreseen c₀ c) = X

namespace Ledger

variable {c₀ c : Channel} {X : Multiset Event}

theorem number_eq (h : Ledger c₀ X c) : c.number = c₀.number :=
  congrArg (·.1) h.manner

theorem muted (h : Ledger c₀ X c) : c.muted = false :=
  (congrArg (·.2.2.2.2.2.2.1) h.manner).trans h.audible

theorem slurred (h : Ledger c₀ X c) : c.slurred = false :=
  (congrArg (·.2.2.2.2.2.2.2) h.manner).trans h.plain_slur

theorem dynamic_eq (h : Ledger c₀ X c) : c.dynamic = c₀.dynamic :=
  congrArg (·.2.2.2.2.2.1) h.manner

theorem timing_eq (h : Ledger c₀ X c) : c.timing = c₀.timing :=
  congrArg (·.2.2.1) h.manner

theorem soundingKey_eq (h : Ledger c₀ X c) : c.soundingKey = c₀.soundingKey := by
  have hmanner := h.manner
  simp only [Channel.manner, Prod.mk.injEq] at hmanner
  obtain ⟨-, hpercussion, -, hoctave, htransposition, -⟩ := hmanner
  funext p
  unfold soundingKey
  rw [hpercussion, hoctave, htransposition]

/-- With nothing foreseen the account is empty at first. -/
theorem refl (h : Sendable c) (hmuted : c.muted = false) (hslurred : c.slurred = false)
    (hidle : c.pending.toList = []) : Ledger c 0 c := by
  refine ⟨h.number_le, hmuted, hslurred, rfl, h.controllerValue_le, ?_, ?_, [], ?_, ?_⟩
  · rw [hidle]
    exact nofun
  · rw [hidle]
    exact nofun
  · simp
  · unfold foreseen
    rw [hidle]
    rfl

/-- When nothing is foreseen, all that was entered is written. -/
theorem written (h : Ledger c₀ X c) (hidle : c.pending.toList = []) :
    ∃ events : List Event, c.track.log = c₀.track.log ++ (events.map some).toArray ∧
      ↑(events.filter (·.message.isNoteOrBend)) = X := by
  obtain ⟨events, hlog, hX⟩ := h.account
  refine ⟨events, hlog, ?_⟩
  unfold foreseen at hX
  rw [hidle] at hX
  exact (add_zero _).symm.trans hX

/-- A note or bend that is written is entered. -/
theorem write (h : Ledger c₀ X c) (m : Message) :
    Ledger c₀ (X + ↑([⟨c.clock, m⟩].filter fun e : Event => e.message.isNoteOrBend))
      (c.write m) := by
  obtain ⟨events, hlog, hX⟩ := h.account
  refine { h with account := ⟨events ++ [⟨c.clock, m⟩], ?_, ?_⟩ }
  · show c.track.log.push _ = _
    rw [hlog]
    simp
  · rw [← hX, List.filter_append, ← Multiset.coe_add]
    exact add_right_comm ..

theorem foreseen_push (tick : Nat) (a : Action) :
    (↑(foreseen c₀ { c with pending := c.pending.push tick a }) : Multiset Event) =
      ↑(foreseen c₀ c) + ↑(a.yields c₀ tick) := by
  have hperm := (Agenda.toList_push_perm c.pending tick a).flatMap_right fun p => p.2.yields c₀ p.1
  rw [List.flatMap_cons] at hperm
  rw [add_comm, Multiset.coe_add]
  exact Multiset.coe_eq_coe.2 hperm

/-- What comes of a promise is entered. -/
theorem push (h : Ledger c₀ X c) {tick : Nat} {a : Action} (ha : a.Plain) (hle : c.clock ≤ tick) :
    Ledger c₀ (X + ↑(a.yields c₀ tick)) { c with pending := c.pending.push tick a } := by
  obtain ⟨events, hlog, hX⟩ := h.account
  refine { h with plain := ?_, timely := ?_, account := ⟨events, hlog, ?_⟩ }
  · rintro ⟨u, b⟩ hp
    rcases Agenda.mem_toList_push.1 hp with ⟨-, rfl⟩ | hp
    · exact ha
    · exact h.plain _ hp
  · rintro ⟨u, b⟩ hp
    rcases Agenda.mem_toList_push.1 hp with ⟨rfl, -⟩ | hp
    · exact hle
    · exact h.timely _ hp
  · rw [foreseen_push, ← add_assoc, hX]

/-- What comes of the actions of a bucket that is taken out has to be entered again. -/
theorem pop (h : Ledger c₀ X c) {target tick : Nat} {actions : List Action} {rest : Agenda Action}
    (hpop : c.pending.popDue? target = some (tick, actions, rest)) :
    max c.clock tick = tick ∧ (∀ a ∈ actions, a.Plain) ∧
      ∃ Y, Ledger c₀ Y { c with pending := rest, clock := max c.clock tick } ∧
        X = Y + ↑(actions.flatMap (·.yields c₀ tick)) := by
  have hlist := Agenda.toList_of_popDue? hpop
  have hplain := h.plain
  have htimely := h.timely
  rw [hlist] at hplain htimely
  obtain ⟨hactions, hrest⟩ := List.forall_mem_append.1 hplain
  obtain ⟨hbucket, -⟩ := List.forall_mem_append.1 htimely
  obtain ⟨a, ha⟩ := List.exists_mem_of_ne_nil _ (Agenda.ne_nil_of_popDue? hpop)
  have hmax : max c.clock tick = tick :=
    Nat.max_eq_right (hbucket (tick, a) (List.mem_map_of_mem ha))
  obtain ⟨events, hlog, hX⟩ := h.account
  refine ⟨hmax, fun a ha => hactions _ (List.mem_map_of_mem ha), _,
    { h with plain := hrest, timely := ?_, account := ⟨events, hlog, rfl⟩ }, ?_⟩
  · rw [hmax]
    intro p hp
    refine Agenda.tick_le_of_popDue? hpop p ?_
    rw [hlist]
    exact List.mem_append_right _ hp
  · -- the items of the bucket are the first of the agenda
    have hforeseen : foreseen c₀ c = actions.flatMap (·.yields c₀ tick) ++
        rest.toList.flatMap fun p => p.2.yields c₀ p.1 := by
      unfold foreseen
      rw [hlist, List.flatMap_append, List.flatMap_map]
    rw [← hX, hforeseen, ← Multiset.coe_add, ← add_assoc, add_right_comm]
    rfl

end Ledger

end Channel

namespace ChannelM

open Channel

variable {α β : Type}

/-- On tick `t`, `m` enters `Y` in the account and answers with what has `V`, or it fails because a
number overflows. -/
structure Plays (c₀ : Channel) (t : Nat) (m : ChannelM α) (V : α → Prop) (Y : List Event) :
    Prop where
  secures : ∀ X, Secures (fun c => Ledger c₀ X c ∧ c.clock = t) m
    fun a c => V a ∧ Ledger c₀ (X + ↑Y) c ∧ c.clock = t

section Rules

variable {c₀ : Channel} {t : Nat} {m : ChannelM α} {V : α → Prop} {W : β → Prop} {Y Z : List Event}

theorem Plays.bind {f : α → ChannelM β} (hm : Plays c₀ t m V Y)
    (hf : ∀ a, V a → Plays c₀ t (f a) W Z) : Plays c₀ t (m >>= f) W (Y ++ Z) := by
  refine ⟨fun X => (hm.secures X).bind fun a => ?_⟩
  rw [← Multiset.coe_add, ← add_assoc]
  exact .of_fact fun ha => (hf a ha).secures _

/-- What follows something that is not entered. -/
theorem Plays.then {f : α → ChannelM β} (hm : Plays c₀ t m V [])
    (hf : ∀ a, V a → Plays c₀ t (f a) W Z) : Plays c₀ t (m >>= f) W Z :=
  hm.bind hf

end Rules

/-! ## Actions -/

section Actions

variable {c₀ : Channel} {t key velocity number value : Nat}

/-- A duration that fits a signed word is read as it is. -/
theorem signed_of_lt {duration : Nat} (hd : duration < 1 <<< 63) :
    Bounded.signed 64 duration = duration := by
  have hhalf : (1 <<< 63 : Nat) = 9223372036854775808 := by decide
  have hword : (1 <<< 64 : Nat) = 18446744073709551616 := by decide
  unfold Bounded.signed
  rw [Int.bmod_def, hword]
  omega

end Actions

/-! ## The clock -/

section Clock

variable {c₀ : Channel} {X : Multiset Event}

end Clock

end ChannelM

end MidiScore
