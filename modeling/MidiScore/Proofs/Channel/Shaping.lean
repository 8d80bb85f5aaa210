import MidiScore.Proofs.Channel.Passages
import MidiScore.Proofs.Channel.Reachable

/-!
# The knobs that shape sounds

Some articulations turn the knobs for the attack and the release time. Turning them answers where
they stood (`of_turnKnobs`), and turning them there again puts them back (`turnedFrom_restoring`). A
channel is poised (`Channel.Poised`) where its knobs stand as they are wanted. A sound with such an
articulation is struck at once, and promises its releases and the knobs' return for one tick
(`pending_of_playNotes`, `eq_of_promiseKnobs`).
-/

namespace MidiScore

/-- The controllers by which articulations shape sounds. -/
abbrev Shapes (number : Nat) : Prop :=
  number = releaseTime ∨ number = attackTime

/-- An action that leaves the knobs alone that shape sounds. -/
abbrev Action.Spares (a : Action) : Prop :=
  ∀ number ∈ a.controller?, ¬ Shapes number

/-- Where knobs stand that stood at `w` before `knobs` were turned. -/
def turnedFrom (knobs : List (Nat × Nat)) (w : Nat → Nat) (number : Nat) : Nat :=
  (knobs.lookup number).getD (w number)

/-- Knobs with where they stood. -/
def restoring (knobs : List (Nat × Nat)) (w : Nat → Nat) : List (Nat × Nat) :=
  knobs.map fun knob => (knob.1, w knob.1)

/-- What was turned stands where it stood when it was turned back. -/
theorem turnedFrom_restoring (knobs : List (Nat × Nat)) (w : Nat → Nat) (number : Nat) :
    turnedFrom (restoring knobs w) (turnedFrom knobs w) number = w number := by
  unfold turnedFrom restoring
  induction knobs with
  | nil => rfl
  | cons knob rest ih =>
    obtain ⟨n, value⟩ := knob
    simp only [List.map_cons, List.lookup_cons]
    by_cases h : number = n
    · rw [h, beq_self_eq_true]
      rfl
    · rw [beq_false_of_ne h]
      exact ih

/-- Knobs of different numbers may be turned one by one. -/
theorem turnedFrom_cons {rest : List (Nat × Nat)} {n value number : Nat} (w : Nat → Nat)
    (h : ∀ other ∈ rest, other.1 ≠ n) :
    turnedFrom rest (fun m => if m = n then value else w m) number =
      turnedFrom ((n, value) :: rest) w number := by
  unfold turnedFrom
  rw [List.lookup_cons]
  by_cases hn : number = n
  · have hnone : rest.lookup number = none :=
      List.lookup_eq_none_iff.2 fun other hother => by simpa [hn] using (h other hother).symm
    rw [hnone, hn, beq_self_eq_true]
    exact if_pos rfl
  · rw [beq_false_of_ne hn]
    simp only [if_neg hn]

namespace Controller

/-- Whether the controller holds any value that it is set to. -/
def isKnob : Controller → Bool
  | knob .. => true
  | pedal .. => false

theorem isKnob_set (c : Controller) (value : Nat) : (c.set value).isKnob = c.isKnob := by
  cases c <;> rfl

theorem value_set {c : Controller} (h : c.isKnob) (value : Nat) : (c.set value).value = value := by
  cases c with
  | knob => rfl
  | pedal => cases h

end Controller

namespace Articulation

theorem nodup_knobs (a : Articulation) : (a.knobs.map (·.1)).Nodup := by
  cases a <;> decide

theorem shapes_of_mem_knobs (a : Articulation) : ∀ knob ∈ a.knobs, Shapes knob.1 := by
  cases a <;> decide

end Articulation

open Channel ChannelM

namespace Channel

variable {x : Setup} {w : Nat → Nat} {c c' : Channel} {knobs : List (Nat × Nat)}
  {number value : Nat}

/-- The controllers that shape sounds are knobs. -/
theorem isKnob_of_reachable (h : c.Reachable) : ∀ n, Shapes n → (c.controller n).isKnob := by
  refine h.induction (P := fun c => ∀ n, Shapes n → (c.controller n).isKnob) ?_ ?_
  · rintro track percussion timing - n (rfl | rfl) <;> rfl
  · intro op c c' hchange hc n hn
    cases hchange with
    | @control number value valid =>
      show ({ c with controllers := c.controllers.setIfInBounds number _ }.controller n).isKnob
      rw [controller_setController]
      split
      · next hnumber =>
        rw [Controller.isKnob_set, hnumber.1]
        exact hc n hn
      · exact hc n hn
    | _ => exact hc n hn

/-- The channel after a controller was set. -/
def withController (c : Channel) (number value : Nat) : Channel :=
  { c with
    track := (c.emit (.controlChange c.number number value)).track
    controllers := c.controllers.setIfInBounds number ((c.controller number).set value) }

/-- The channel after knobs were turned one by one. -/
def turned (c : Channel) (knobs : List (Nat × Nat)) : Channel :=
  knobs.foldl (fun c knob => c.withController knob.1 knob.2) c

theorem controller_withController {n : Nat} :
    (c.withController number value).controller n =
      if number = n ∧ number < 128 then (c.controller number).set value else c.controller n :=
  controller_setController

theorem setup_withController : (c.withController number value).setup = c.setup := by
  have hnumber : (c.withController number value).number = c.number := channel_emit ..
  unfold setup
  rw [hnumber]
  rfl

theorem fields_turned (c : Channel) (knobs : List (Nat × Nat)) :
    (c.turned knobs).setup = c.setup ∧ (c.turned knobs).clock = c.clock ∧
      (c.turned knobs).pending = c.pending := by
  induction knobs generalizing c with
  | nil => exact ⟨rfl, rfl, rfl⟩
  | cons knob rest ih =>
    obtain ⟨hsetup, hclock, hpending⟩ := ih (c.withController knob.1 knob.2)
    exact ⟨hsetup.trans setup_withController, hclock, hpending⟩

/-- A channel that sounds writes each knob that is turned. -/
theorem log_turned (hm : c.muted = false) (knobs : List (Nat × Nat)) :
    (c.turned knobs).track.log.toList = c.track.log.toList ++
      knobs.map fun knob => some ⟨c.clock, .controlChange c.number knob.1 knob.2⟩ := by
  induction knobs generalizing c with
  | nil => exact (List.append_nil _).symm
  | cons knob rest ih =>
    have hlog : (c.withController knob.1 knob.2).track.log.toList = c.track.log.toList ++
        [some ⟨c.clock, .controlChange c.number knob.1 knob.2⟩] := by
      unfold withController
      rw [emit_of_not_muted hm]
      exact Array.toList_push
    have hnumber : (c.withController knob.1 knob.2).number = c.number :=
      congrArg Setup.number setup_withController
    rw [List.map_cons, List.append_cons, ← hlog, ← hnumber]
    exact ih hm

/-- The channel is set up as it was, and the knobs that shape sounds stand at `w`. -/
structure Poised (x : Setup) (w : Nat → Nat) (c : Channel) : Prop where
  setup : c.setup = x
  knob : ∀ n, Shapes n → (c.controller n).isKnob
  value : ∀ n, Shapes n → c.controllerValue n = w n

namespace Poised

theorem congr (h : Poised x w c) (hs : c'.setup = c.setup)
    (hc : ∀ n, Shapes n → c'.controller n = c.controller n) : Poised x w c' := by
  refine ⟨hs.trans h.setup, fun n hn => ?_, fun n hn => ?_⟩
  · rw [hc n hn]
    exact h.knob n hn
  · unfold controllerValue
    rw [hc n hn]
    exact h.value n hn

theorem withController (h : Poised x w c) (hn : Shapes number) (value : Nat) :
    Poised x (fun n => if n = number then value else w n) (c.withController number value) := by
  have hlt : number < 128 := by
    rcases hn with rfl | rfl <;> decide
  have hcontroller : ∀ n, (c.withController number value).controller n =
      if n = number then (c.controller number).set value else c.controller n := by
    intro n
    simp only [controller_withController, hlt, and_true, eq_comm]
  refine ⟨setup_withController.trans h.setup, fun n hshapes => ?_, fun n hshapes => ?_⟩
  · rw [hcontroller]
    split
    · rw [Controller.isKnob_set]
      exact h.knob number hn
    · exact h.knob n hshapes
  · unfold controllerValue
    rw [hcontroller]
    split
    · exact Controller.value_set (h.knob number hn) value
    · exact h.value n hshapes

theorem turned (h : Poised x w c) (hnodup : (knobs.map (·.1)).Nodup)
    (hknobs : ∀ knob ∈ knobs, Shapes knob.1) :
    Poised x (turnedFrom knobs w) (c.turned knobs) := by
  induction knobs generalizing w c with
  | nil => exact h
  | cons knob rest ih =>
    rw [List.map_cons, List.nodup_cons] at hnodup
    obtain ⟨hknob, hrest⟩ := List.forall_mem_cons.1 hknobs
    have hne : ∀ other ∈ rest, other.1 ≠ knob.1 := fun other hother heq =>
      hnodup.1 (heq ▸ List.mem_map_of_mem hother)
    have hall := ih (h.withController hknob knob.2) hnodup.2 hrest
    exact ⟨hall.setup, hall.knob, fun n hn => (hall.value n hn).trans (turnedFrom_cons w hne)⟩

theorem run {a : Action} {u : Unit} (h : Poised x w c) (ha : a.Spares)
    (hrun : run a c = .ok u c') : Poised x w c' :=
  h.congr ((fixes_setup_run a).of_ok hrun) fun _ hn =>
    (fixes_controller_run fun _ hnumber heq => ha _ hnumber (heq ▸ hn)).of_ok hrun

end Poised

end Channel

namespace ChannelM

/-! ## Knobs and releases that are run -/

section Runs

variable {c c' : Channel} {u : Unit} {knobs restores : List (Nat × Nat)}

theorem eq_of_runAll_turnKnob
    (h : runAll (knobs.map fun knob => .turnKnob knob.1 knob.2) c = .ok u c') :
    c' = c.turned knobs := by
  induction knobs generalizing c with
  | nil =>
    cases h
    rfl
  | cons knob rest ih =>
    obtain ⟨_, c₁, hset, hrest⟩ := bind_eq_ok h
    obtain rfl : c₁ = c.withController knob.1 knob.2 := eq_of_setController hset
    exact ih hrest

/-- Turning knobs answers where they stood. -/
theorem of_turnKnobs (hnodup : (knobs.map (·.1)).Nodup)
    (h : turnKnobs knobs c = .ok restores c') :
    restores = restoring knobs c.controllerValue ∧ c' = c.turned knobs := by
  induction knobs generalizing c restores with
  | nil =>
    cases h
    exact ⟨rfl, rfl⟩
  | cons knob rest ih =>
    obtain ⟨n, value⟩ := knob
    rw [List.map_cons, List.nodup_cons] at hnodup
    unfold turnKnobs at h
    rw [List.mapM_cons] at h
    obtain ⟨old, c₁, hknob, h⟩ := bind_eq_ok h
    obtain ⟨olds, c₂, hrest, h⟩ := bind_eq_ok h
    cases h
    obtain ⟨_, c₃, hget, hknob⟩ := bind_eq_ok hknob
    cases hget
    obtain ⟨_, c₄, hset, hknob⟩ := bind_eq_ok hknob
    cases hknob
    obtain rfl : c₁ = c.withController n value := eq_of_setController hset
    obtain ⟨rfl, hturned⟩ := ih hnodup.2 hrest
    refine ⟨congrArg ((n, c.controllerValue n) :: ·) ?_, hturned⟩
    refine List.map_congr_left fun other hother => ?_
    have hne : n ≠ other.1 := fun heq => hnodup.1 (List.mem_map.2 ⟨other, hother, heq.symm⟩)
    unfold controllerValue
    rw [controller_withController, if_neg fun h => hne h.1]

/-- A channel that sounds writes each release that it runs. -/
theorem log_of_runAll_noteOff {keys : List Nat} {velocity : Nat} (hm : c.muted = false)
    (h : runAll (keys.map (.noteOff · velocity)) c = .ok u c') :
    c'.track.log.toList = c.track.log.toList ++
      keys.map fun key => some ⟨c.clock, .noteOff c.number key velocity⟩ := by
  induction keys generalizing c with
  | nil =>
    cases h
    exact (List.append_nil _).symm
  | cons key rest ih =>
    obtain ⟨_, c₁, hoff, hrest⟩ := bind_eq_ok h
    obtain ⟨-, rfl⟩ := eq_of_noteOff hoff
    have htrack : (c.released key velocity).track =
        c.track.push ⟨c.clock, .noteOff c.number key velocity⟩ := by
      unfold released
      rw [emit_of_not_muted hm]
      rfl
    have hlog : (c.released key velocity).track.log.toList = c.track.log.toList ++
        [some ⟨c.clock, .noteOff c.number key velocity⟩] := by
      rw [htrack]
      exact Array.toList_push
    have hnumber : (c.released key velocity).number = c.number := by
      unfold number
      rw [htrack]
      rfl
    rw [List.map_cons, List.append_cons, ← hlog, ← hnumber]
    exact ih hm hrest

end Runs

/-! ## What a sound promises -/

section Promises

variable {c c' : Channel} {u : Unit}

theorem soundingKey_of_setup (h : c'.setup = c.setup) (p : Pitch) :
    c'.soundingKey p = c.soundingKey p := by
  have hpercussion : c'.percussion = c.percussion := congrArg Setup.percussion h
  have hoctave : c'.octave = c.octave := congrArg Setup.octave h
  have htransposition : c'.transposition = c.transposition := congrArg Setup.transposition h
  unfold soundingKey
  rw [hpercussion, hoctave, htransposition]

theorem tickAfter_of_clock (h : c'.clock = c.clock) (duration : Nat) :
    c'.tickAfter duration = c.tickAfter duration := by
  unfold tickAfter
  rw [h]

theorem of_playNote {p : Pitch} {delta : Int} {duration offVelocity : Nat}
    (h : playNote p delta duration offVelocity c = .ok u c') :
    (c.soundingKey p = none ∧ c' = c) ∨
      ∃ key, c.soundingKey p = some key ∧ strike key delta duration offVelocity c = .ok u c' := by
  unfold playNote at h
  rw [get_bind] at h
  cases hkey : c.soundingKey p with
  | none =>
    rw [hkey] at h
    cases h
    exact .inl ⟨rfl, rfl⟩
  | some key =>
    rw [hkey] at h
    exact .inr ⟨key, rfl, h⟩

/-- Tones that are struck together promise their releases for one tick. -/
theorem pending_of_playNotes {tones : List Pitch} {delta : Int} {duration offVelocity : Nat}
    (h : (tones.forM fun p => playNote p delta duration offVelocity) c = .ok u c') :
    c'.pending = c.pending.pushAll (((tones.filterMap c.soundingKey).map
      (Action.noteOff · offVelocity)).map (c.tickAfter duration, ·)) := by
  induction tones generalizing c with
  | nil =>
    cases h
    rfl
  | cons p rest ih =>
    obtain ⟨c₁, hnote, hrest⟩ := forM_cons_eq_ok h
    have hpending := ih hrest
    rcases of_playNote hnote with ⟨hkey, rfl⟩ | ⟨key, hkey, hstrike⟩
    · rw [List.filterMap_cons_none hkey]
      exact hpending
    · have hsetup := (aloof_setup.fixes_strike key delta duration offVelocity).of_ok hstrike
      have hclock := (aloof_clock.fixes_strike key delta duration offVelocity).of_ok hstrike
      have hkeys : c₁.soundingKey = c.soundingKey := funext (soundingKey_of_setup hsetup)
      rw [hpending, hkeys, tickAfter_of_clock hclock, pending_of_strike hstrike,
        List.filterMap_cons_some hkey]
      rfl

/-- An articulation that turns knobs strikes its tones together. -/
theorem strikePlayable_eq {a : Articulation} (ha : a.knobs ≠ []) (p : Playable) (duration : Nat) :
    strikePlayable p a duration =
      p.tones.forM fun p => playNote p a.attackDelta duration a.offVelocity := by
  have hone : ∀ p : Pitch, playNote p a.attackDelta duration a.offVelocity =
      [p].forM fun p => playNote p a.attackDelta duration a.offVelocity :=
    fun p => (bind_pure_unit ..).symm
  cases a with
  | staccato | staccatissimo | marcato =>
    cases p with
    | pitch p => exact hone p
    | chord chord => rfl
  | _ => exact absurd rfl ha

/-- Knobs are turned back by actions that are promised for one tick. -/
theorem eq_of_promiseKnobs {duration : Nat} {knobs : List (Nat × Nat)}
    (h : (knobs.forM fun (number, value) => after duration (.turnKnob number value)) c =
      .ok u c') :
    c' = { c with
      pending := c.pending.pushAll ((knobs.map fun knob => Action.turnKnob knob.1 knob.2).map
        (c.tickAfter duration, ·)) } := by
  induction knobs generalizing c with
  | nil =>
    cases h
    rfl
  | cons knob rest ih =>
    obtain ⟨c₁, hafter, hrest⟩ := forM_cons_eq_ok h
    have hc₁ := eq_of_after hafter
    have hclock : c₁.clock = c.clock := by rw [hc₁]
    rw [ih hrest, tickAfter_of_clock hclock, hc₁]
    rfl

theorem aloof_controllers : Aloof Channel.controllers where
  write _ _ := rfl
  erase _ _ := rfl
  notes _ _ := rfl
  releases _ _ := rfl
  pending _ _ := rfl

/-- What shows neither notes nor promises is the same before every strike of a sound. -/
theorem rehearsal_of_aloof {γ : Type} {f : Channel → γ} (hf : Aloof f) (x : γ) :
    Rehearsal fun past c => f c = x ∧ ∀ s ∈ past, f s.before = x where
  strike key delta duration offVelocity _ := fun _ _ _ _ h hstrike =>
    ⟨((hf.fixes_strike key delta duration offVelocity).of_ok hstrike).trans h.1,
      List.forall_mem_append.2 ⟨h.2, List.forall_mem_singleton.2 h.1⟩⟩
  later delta a _ _ := fun _ _ _ h hlater =>
    ⟨((hf.fixes_later delta a).of_ok hlater).trans h.1, h.2⟩

/-- What is struck leaves alone what shows neither notes nor promises. -/
theorem eq_of_strikePlayable {γ : Type} {f : Channel → γ} (hf : Aloof f) {p : Playable}
    {a : Articulation} {duration : Nat} (h : strikePlayable p a duration c = .ok u c') :
    f c' = f c := by
  have hkeeps := soundableOn_of_aloof (N := fun _ => False) hf nofun (f c)
  exact hkeeps.strikePlayable p a duration c u c' rfl h

theorem of_playSound {s : Sound} {beat : Beat} (hsounds : ¬ s.playable.isRest)
    (h : playSound s beat c = .ok u c') :
    ∃ restores c₁ c₂, turnKnobs s.articulation.knobs c = .ok restores c₁ ∧
      strikePlayable s.playable s.articulation (c.soundingTicks s beat) c₁ = .ok () c₂ ∧
      (restores.forM fun (number, value) =>
        after (c.soundingTicks s beat) (.turnKnob number value)) c₂ = .ok u c' := by
  unfold playSound at h
  rw [if_neg hsounds, get_bind] at h
  obtain ⟨restores, c₁, hturn, h⟩ := bind_eq_ok h
  obtain ⟨_, c₂, hstrike, h⟩ := bind_eq_ok h
  exact ⟨restores, c₁, c₂, hturn, hstrike, h⟩

end Promises

end ChannelM

end MidiScore
