import Mathlib.Data.Multiset.Defs
import MidiScore.Proofs.Channel.Mirrors
import MidiScore.Proofs.Channel.Reachable

/-!
# A slurred phrase beside the plain one

What slurring changes is how loud a joined strike is, whether its release stays in the track, and
the sustain pedal. None of these decides what is promised. So the two channels, on one of which a
phrase is played as it is and on the other without its slurs, strike the same keys on the same ticks
and owe the same, and a release that is found on the first is found on the second
(`conservative_of_playPhrase`).
-/

namespace MidiScore

/-- The tick and the key of a strike. -/
def Event.strike? : Event → Option (Nat × Nat)
  | ⟨tick, .noteOn _ key _⟩ => some (tick, key)
  | _ => none

/-- No articulation turns the pedal. -/
theorem Articulation.ne_sustain (a : Articulation) :
    ∀ knob ∈ a.knobs, knob.1 ≠ Controller.sustain := by
  cases a <;> decide

namespace Track

/-- The ticks and keys of the strikes that were written under handles from `base` on. -/
def strikesSince (t : Track) (base : Nat) : List (Nat × Nat) :=
  (t.writtenSince base).filterMap Event.strike?

/-- The releases that were written and not pulled out. -/
def releases (t : Track) : List Event :=
  t.written.filter (·.message.isNoteOff)

/-- Two tracks, the second of them plain, that go on alike from the handle `base`: with the same
strikes, and the first with no release that the second does not have. -/
structure Smoothed (base : Nat) (t t' : Track) : Prop where
  le : base ≤ t.nextHandle
  le' : base ≤ t'.nextHandle
  strikes : t.strikesSince base = t'.strikesSince base
  releases : t.releases.Sublist t'.releases

theorem strikesSince_push {t : Track} {base : Nat} (h : base ≤ t.nextHandle) (e : Event) :
    (t.push e).strikesSince base = t.strikesSince base ++ [e].filterMap Event.strike? := by
  unfold strikesSince
  rw [writtenSince_push h, List.filterMap_append]

theorem releases_push (t : Track) (e : Event) :
    (t.push e).releases = t.releases ++ [e].filter (·.message.isNoteOff) := by
  unfold releases
  rw [written_push, List.filter_append]

theorem le_nextHandle_push {t : Track} {base : Nat} (h : base ≤ t.nextHandle) (e : Event) :
    base ≤ (t.push e).nextHandle := by
  rw [nextHandle_push]
  exact Nat.le_succ_of_le h

namespace Smoothed

variable {base : Nat} {t t' : Track} (h : Smoothed base t t')

include h

/-- Both tracks go on with the same strike or release, however loud. -/
theorem push {e e' : Event} (hs : e.strike? = e'.strike?)
    (hr : ([e].filter (·.message.isNoteOff)).Sublist ([e'].filter (·.message.isNoteOff))) :
    Smoothed base (t.push e) (t'.push e') := by
  refine ⟨le_nextHandle_push h.le e, le_nextHandle_push h.le' e', ?_, ?_⟩
  · rw [strikesSince_push h.le, strikesSince_push h.le', h.strikes, List.filterMap_cons,
      List.filterMap_cons, hs]
  · rw [releases_push, releases_push]
    exact h.releases.append hr

/-- Only the first track goes on with what is no note. -/
theorem push_first {e : Event} (hs : e.strike? = none) (hr : e.message.isNoteOff = false) :
    Smoothed base (t.push e) t' := by
  refine ⟨le_nextHandle_push h.le e, h.le', ?_, ?_⟩
  · rw [strikesSince_push h.le, List.filterMap_cons_none hs, List.filterMap_nil, List.append_nil,
      h.strikes]
  · rw [releases_push, List.filter_cons_of_neg (by simp [hr]), List.filter_nil, List.append_nil]
    exact h.releases

/-- A release is pulled out of the first track. -/
theorem erase {handle : Nat} {e : Event} (hget : t.get? handle = some e) (he : e.strike? = none) :
    Smoothed base (t.erase handle) t' := by
  refine ⟨?_, h.le', ?_, ((t.written_erase_sublist handle).filter _).trans h.releases⟩
  · rw [nextHandle_erase]
    exact h.le
  · exact (filterMap_writtenSince_erase hget he).trans h.strikes

end Smoothed

end Track

namespace Channel

/-- The channel without its track, its keys, its controllers and its slur. -/
def unslurred (c : Channel) : Channel :=
  { c with
    track := { channel := c.number }
    notes := .replicate 128 .off
    releases := .replicate 128 none
    controllers := .replicate 128 (.fresh 0)
    slurred := false }

/-- A channel that may be slurring and a plain one. They differ at most in their keys, in the pedal
and in what a slur may change in a track. -/
structure Smoothed (base : Nat) (c c' : Channel) : Prop where
  consistent : c.Consistent
  sounds : c.muted = false
  plain : c'.slurred = false
  same : c.unslurred = c'.unslurred
  controller : ∀ n, n ≠ Controller.sustain → c.controller n = c'.controller n
  tracks : c.track.Smoothed base c'.track

namespace Smoothed

variable {base : Nat} {c c' : Channel}

theorem refl (hc : c.Consistent) (hm : c.muted = false) (hs : c.slurred = false) :
    Smoothed c.track.nextHandle c c where
  consistent := hc
  sounds := hm
  plain := hs
  same := rfl
  controller _ _ := rfl
  tracks := ⟨Nat.le_refl _, Nat.le_refl _, rfl, .refl _⟩

section Same

variable (h : Smoothed base c c')

include h

/-- What a slur leaves as it is, the two channels have in common. -/
theorem common {γ : Type} (f : Channel → γ) (hf : ∀ c, f c.unslurred = f c) : f c = f c' := by
  rw [← hf c, h.same, hf]

theorem sounds' : c'.muted = false :=
  (h.common muted fun _ => rfl).symm.trans h.sounds

theorem number_eq : c.number = c'.number :=
  h.common number fun _ => rfl

theorem clock_eq : c.clock = c'.clock :=
  h.common clock fun _ => rfl

theorem pending_eq : c.pending = c'.pending :=
  h.common pending fun _ => rfl

theorem timing_eq : c.timing = c'.timing :=
  h.common timing fun _ => rfl

theorem soundingKey_eq : c.soundingKey = c'.soundingKey :=
  h.common soundingKey fun _ => rfl

end Same

/-! ### What is done to both -/

theorem struck (h : Smoothed base c c') (key velocity velocity' : Nat) :
    Smoothed base (c.struck key velocity) (c'.struck key velocity') := by
  unfold Channel.struck
  rw [emit_of_not_muted h.sounds, emit_of_not_muted h.sounds', h.number_eq]
  refine ⟨(h.consistent.write _).congr rfl rfl rfl rfl, h.sounds, h.plain, ?_, h.controller, ?_⟩
  · exact h.same
  · exact h.tracks.push (congrArg (fun t => some (t, key)) h.clock_eq) (.refl _)

theorem released (h : Smoothed base c c') (key velocity : Nat) :
    Smoothed base (c.released key velocity) (c'.released key velocity) := by
  refine ⟨h.consistent.released key velocity, h.sounds, h.plain, ?_, h.controller, ?_⟩
  · unfold Channel.released
    rw [emit_of_not_muted h.sounds, emit_of_not_muted h.sounds']
    exact h.same
  · unfold Channel.released
    rw [emit_of_not_muted h.sounds, emit_of_not_muted h.sounds']
    refine h.tracks.push rfl ?_
    rw [h.clock_eq, h.number_eq]

theorem promise {tick : Nat} (h : Smoothed base c c') (a : Action) (hle : c.clock ≤ tick) :
    Smoothed base { c with pending := c.pending.push tick a }
      { c' with pending := c'.pending.push tick a } := by
  refine ⟨h.consistent.push a hle, h.sounds, h.plain, ?_, h.controller, h.tracks⟩
  exact congrArg (fun c => { c with pending := c.pending.push tick a }) h.same

/-- A message is written that is no note. -/
theorem aside (h : Smoothed base c c') {m : Message}
    (hon : ∀ tick, (Event.mk tick m).strike? = none) (hoff : m.isNoteOff = false) :
    Smoothed base (c.emit m) (c'.emit m) := by
  rw [emit_of_not_muted h.sounds, emit_of_not_muted h.sounds']
  refine ⟨h.consistent.write m, h.sounds, h.plain, h.same, h.controller, ?_⟩
  refine h.tracks.push ((hon _).trans (hon _).symm) ?_
  rw [List.filter_cons_of_neg (by simp [hoff])]
  exact List.nil_sublist _

theorem control (h : Smoothed base c c') (number value : Nat) :
    Smoothed base
      { c with controllers := c.controllers.setIfInBounds number ((c.controller number).set value) }
      { c' with
        controllers := c'.controllers.setIfInBounds number
          ((c'.controller number).set value) } := by
  refine ⟨h.consistent.congr rfl rfl rfl rfl, h.sounds, h.plain, h.same, fun n hn => ?_, h.tracks⟩
  rw [controller_setController, controller_setController]
  split
  · next hnumber => rw [h.controller number (hnumber.1 ▸ hn)]
  · exact h.controller n hn

/-- What is taken out of the agenda stood on both. -/
theorem pop {target tick : Nat} {actions : List Action} {rest : Agenda Action}
    (h : Smoothed base c c') (hpop : c.pending.popDue? target = some (tick, actions, rest)) :
    Smoothed base { c with pending := rest, clock := max c.clock tick }
      { c' with pending := rest, clock := max c'.clock tick } := by
  refine ⟨(h.consistent.pop hpop).2, h.sounds, h.plain, ?_, h.controller, h.tracks⟩
  exact congrArg (fun c => { c with pending := rest, clock := max c.clock tick }) h.same

theorem wait {target : Nat} (h : Smoothed base c c')
    (hidle : c.pending.popDue? target = none) :
    Smoothed base { c with clock := target } { c' with clock := target } := by
  refine ⟨h.consistent.wait hidle, h.sounds, h.plain, ?_, h.controller, h.tracks⟩
  exact congrArg (fun c => { c with clock := target }) h.same

theorem bend (h : Smoothed base c c') (bend : Nat) :
    Smoothed base { c with bend } { c' with bend } :=
  ⟨h.consistent.congr rfl rfl rfl rfl, h.sounds, h.plain,
    congrArg (fun c => { c with bend }) h.same, h.controller, h.tracks⟩

theorem dynamic (h : Smoothed base c c') (dynamic : Dynamic) :
    Smoothed base { c with dynamic } { c' with dynamic } :=
  ⟨h.consistent.congr rfl rfl rfl rfl, h.sounds, h.plain,
    congrArg (fun c => { c with dynamic }) h.same, h.controller, h.tracks⟩

theorem unslur (h : Smoothed base c c') :
    Smoothed base { c with slurred := false } { c' with slurred := false } :=
  ⟨h.consistent.congr rfl rfl rfl rfl, h.sounds, rfl, h.same, h.controller, h.tracks⟩

/-! ### What is done to the slurred one only -/

theorem takenBack {key handle : Nat} (h : Smoothed base c c')
    (hj : c.joinedRelease? key = .ok (some handle)) :
    Smoothed base (c.takenBack key handle) c' := by
  obtain ⟨-, -, hr, e, hget, -⟩ := exists_of_joinedRelease? hj
  obtain ⟨channel, velocity, hm⟩ := h.consistent.release key handle e hr hget
  have hnone : e.strike? = none := by
    obtain ⟨tick, m⟩ := e
    cases hm
    rfl
  exact ⟨h.consistent.takenBack key handle, h.sounds, h.plain, h.same, h.controller,
    h.tracks.erase hget hnone⟩

theorem slur (h : Smoothed base c c') (slurred : Bool) : Smoothed base { c with slurred } c' :=
  ⟨h.consistent.congr rfl rfl rfl rfl, h.sounds, h.plain, h.same, h.controller, h.tracks⟩

theorem pedal (h : Smoothed base c c') (value : Nat) :
    Smoothed base
      { c with
        track := (c.emit (.controlChange c.number Controller.sustain value)).track
        controllers := c.controllers.setIfInBounds Controller.sustain
          ((c.controller Controller.sustain).set value) } c' := by
  rw [emit_of_not_muted h.sounds]
  refine ⟨(h.consistent.write _).congr rfl rfl rfl rfl, h.sounds, h.plain, h.same, fun n hn => ?_,
    h.tracks.push_first rfl rfl⟩
  rw [← h.controller n hn]
  exact (controller_setController ..).trans (if_neg fun hsame => hn hsame.1.symm)

end Smoothed

end Channel

namespace ChannelM

open Channel

/-- Only runs of which neither fails are compared. -/
def failing : Excuses where
  first _ := True
  second _ := True

section Rules

variable {α α' : Type} {R : Channel → Channel → Prop} {V : α → α' → Prop} {m : ChannelM α}
  {m' : ChannelM α'}

theorem mirrors_of_ok (h : ∀ {c c' c₁ c₁' : Channel} {a a'}, R c c' → m c = .ok a c₁ →
    m' c' = .ok a' c₁' → V a a' ∧ R c₁ c₁') : Mirrors failing R V m m' := by
  refine ⟨fun {c c'} hc => ?_⟩
  cases hr : m c with
  | error e c₁ => exact .of_first trivial _
  | ok a c₁ =>
    cases hr' : m' c' with
    | error e' c₁' => exact .of_second trivial _
    | ok a' c₁' => exact h hc hr hr'

/-- Only the first channel does something. -/
theorem mirrors_of_keeps {m : ChannelM PUnit}
    (h : ∀ c', Keeps (fun c => R c c') m) : Mirrors failing R Eq m (pure ⟨⟩) := by
  refine mirrors_of_ok fun {c c' c₁ c₁' a a'} hc hr hr' => ?_
  cases hr'
  exact ⟨rfl, h c' c a c₁ hc hr⟩

end Rules

variable {base : Nat}

/-! ### Keys -/

/-- The first strike may be softer than the second, and its release may have been pulled out. -/
theorem smoothed_attackVelocity (key : Nat) (delta : Int) :
    Mirrors failing (Smoothed base) (fun _ _ => True) (attackVelocity key delta)
      (attackVelocity key delta) := by
  refine mirrors_of_ok fun {c c' c₁ c₁' v v'} hc hr hr' => ⟨trivial, ?_⟩
  rw [attackVelocity_of_not_slurred hc.plain] at hr'
  obtain ⟨-, rfl⟩ := eq_of_ofOption hr'
  rcases of_attackVelocity hr with ⟨handle, hj, rfl, -⟩ | ⟨-, rfl, -⟩
  · exact hc.takenBack hj
  · exact hc

theorem smoothed_noteOn (key velocity velocity' : Nat) :
    Mirrors failing (Smoothed base) Eq (noteOn key velocity) (noteOn key velocity') := by
  refine mirrors_of_ok fun hc hr hr' => ⟨rfl, ?_⟩
  obtain ⟨-, rfl⟩ := eq_of_noteOn hr
  obtain ⟨-, rfl⟩ := eq_of_noteOn hr'
  exact hc.struck key velocity velocity'

theorem smoothed_noteOff (key velocity : Nat) :
    Mirrors failing (Smoothed base) Eq (noteOff key velocity) (noteOff key velocity) := by
  refine mirrors_of_ok fun hc hr hr' => ⟨rfl, ?_⟩
  obtain ⟨-, rfl⟩ := eq_of_noteOff hr
  obtain ⟨-, rfl⟩ := eq_of_noteOff hr'
  exact hc.released key velocity

theorem smoothed_later (delta : Int) (a : Action) :
    Mirrors failing (Smoothed base) Eq (later delta a) (later delta a) := by
  refine ⟨fun {c c'} hc => ?_⟩
  unfold later
  rw [get_bind, get_bind, ← hc.clock_eq]
  split
  · exact ⟨rfl, hc.promise a (Nat.le_refl _)⟩
  · cases hn : Bounded.nat? 64 (c.clock + delta.toNat) with
    | none => exact .of_first trivial _
    | some tick =>
      obtain ⟨-, rfl⟩ := Bounded.nat?_eq_some_iff.1 hn
      exact ⟨rfl, hc.promise a (Nat.le_add_right ..)⟩

theorem smoothed_strike (key : Nat) (delta : Int) (duration offVelocity : Nat) :
    Mirrors failing (Smoothed base) Eq (strike key delta duration offVelocity)
      (strike key delta duration offVelocity) :=
  (smoothed_attackVelocity key delta).bind fun v v' _ => (smoothed_noteOn key v v').bind_eq
    fun _ => smoothed_later _ _

/-! ### Settings -/

theorem smoothed_send {m : Message} (hon : ∀ tick, (Event.mk tick m).strike? = none)
    (hoff : m.isNoteOff = false) : Mirrors failing (Smoothed base) Eq (send m) (send m) :=
  (mirrors_check m).bind_eq fun _ => mirrors_modify fun _ _ hc => hc.aside hon hoff

theorem smoothed_setController (number value : Nat) :
    Mirrors failing (Smoothed base) Eq (setController number value)
      (setController number value) := by
  refine mirrors_get_bind fun c c' hc => ?_
  rw [hc.number_eq]
  refine (smoothed_send (fun _ => rfl) rfl).bind_eq fun _ => ?_
  exact mirrors_modify fun _ _ hc => hc.control number value

theorem smoothed_setBend (value : Nat) :
    Mirrors failing (Smoothed base) Eq (setBend value) (setBend value) := by
  refine mirrors_get_bind fun c c' hc => ?_
  rw [hc.number_eq]
  refine (smoothed_send (fun _ => rfl) rfl).bind_eq fun _ => ?_
  exact mirrors_modify fun _ _ hc => hc.bend value

theorem smoothed_run (a : Action) : Mirrors failing (Smoothed base) Eq (run a) (run a) := by
  cases a with
  | noteOff key velocity => exact smoothed_noteOff key velocity
  | play key delta duration offVelocity => exact smoothed_strike key delta duration offVelocity
  | setDynamic dynamic => exact mirrors_modify fun _ _ hc => hc.dynamic dynamic
  | turnKnob number value => exact smoothed_setController number value
  | pressPedal number => exact smoothed_setController number _
  | releasePedal number => exact smoothed_setController number _
  | bend value => exact smoothed_setBend value
  | resetBend => exact smoothed_setBend _

/-! ### The clock and sounds -/

theorem lockstep_smoothed (target : Nat) : Lockstep failing (Smoothed base) target target where
  due hc hpop := ⟨_, _, hc.pending_eq ▸ hpop, hc.pop hpop⟩
  idle hc _ hpop := ⟨hc.pending_eq ▸ hpop, hc.wait hpop⟩
  run := smoothed_run

theorem smoothed_advanceBeat (b : Beat) :
    Mirrors failing (Smoothed base) Eq (advanceBeat b) (advanceBeat b) := by
  refine mirrors_get_bind fun c c' hc => ?_
  rw [hc.timing_eq]
  exact mirrors_advance (fun h => h.clock_eq) lockstep_smoothed _

theorem resounding_smoothed : Resounding failing (Smoothed base) 0 where
  timing h := h.timing_eq
  soundingKey h p := by rw [p.shiftOctave_zero, h.soundingKey_eq]
  knob a h knob hknob := congrArg Controller.value (h.controller knob.1 (a.ne_sustain knob hknob))
  strike := smoothed_strike
  later := smoothed_later
  setController := smoothed_setController

/-! ## Phrases -/

/-- The first channel slurs and moves its pedal, and the second has nothing to change. -/
theorem smoothed_changeSlur (slurring slurred : Bool) :
    Mirrors failing (Smoothed base) Eq (changeSlur slurring slurred) (changeSlur false false) := by
  have hpedal : ∀ c' value,
      Keeps (fun c => Smoothed base c c') (setController Controller.sustain value) := by
    intro c' value c u c₁ hc hr
    obtain rfl := eq_of_setController hr
    exact hc.pedal value
  have hslur : ∀ c' slurred, Keeps (fun c => Smoothed base c c') (setSlurred slurred) :=
    fun c' slurred => ensures_modify fun c hc => hc.slur slurred
  refine mirrors_of_keeps fun c' => ?_
  cases slurred <;> cases slurring
  · exact keeps_pure _
  · exact (hslur c' _).bind fun _ => hpedal c' _
  · exact (hpedal c' _).bind fun _ => hslur c' _
  · exact keeps_pure _

/-- An element without its slur. -/
def plainElement (element : Sound × Beat) : Sound × Beat :=
  (element.1, element.2.withSlur false)

theorem smoothed_playElements (slurring : Bool) (l : List (Sound × Beat)) :
    Mirrors failing (Smoothed base) Eq (playElements slurring l)
      (playElements false (l.map plainElement)) := by
  induction l generalizing slurring with
  | nil => exact mirrors_pure rfl
  | cons element rest ih =>
    obtain ⟨sound, beat⟩ := element
    have hplay := (@resounding_smoothed base).playSound sound beat
    rw [sound.shiftOctave_zero] at hplay
    refine (smoothed_changeSlur slurring beat.slurred).bind_eq fun _ => hplay.bind_eq fun _ => ?_
    exact (smoothed_advanceBeat beat).bind_eq fun _ => ih beat.slurred

end ChannelM

/-- The phrase with every slur flag cleared. -/
def Phrase.unslurred (p : Phrase) : Phrase :=
  { p with rhythm := p.rhythm.withSlur false }

theorem Rhythm.size_withSlur (r : Rhythm) (slurred : Bool) : (r.withSlur slurred).size = r.size :=
  List.length_map _

theorem Rhythm.get?_withSlur (r : Rhythm) (slurred : Bool) (i : Nat) :
    (r.withSlur slurred).get? i = (r.get? i).map (·.withSlur slurred) := by
  unfold get?
  rw [size_withSlur]
  exact List.getElem?_map

theorem Phrase.size_unslurred (p : Phrase) : p.unslurred.size = p.size := by
  unfold size unslurred
  rw [Rhythm.size_withSlur]

theorem Phrase.elements_unslurred (p : Phrase) :
    p.unslurred.elements = p.elements.map ChannelM.plainElement := by
  unfold elements
  rw [p.size_unslurred, List.map_filterMap]
  refine List.filterMap_congr fun i _ => ?_
  unfold get? unslurred
  rw [Rhythm.get?_withSlur]
  cases p.melody.get? i <;> cases p.rhythm.get? i <;> rfl

namespace ChannelM

open Channel

variable {base : Nat}

theorem smoothed_playPhrase (p : Phrase) :
    Mirrors failing (Smoothed base) Eq (playPhrase p) (playPhrase p.unslurred) := by
  unfold playPhrase
  rw [p.size_unslurred, p.elements_unslurred]
  split
  · exact mirrors_pure rfl
  · have hoff : Mirrors failing (Smoothed base) Eq (setSlurred false) (setSlurred false) :=
      mirrors_modify fun _ _ h => h.unslur
    refine mirrors_get_bind fun c c' hc => (smoothed_playElements false _).bind_eq fun _ => ?_
    refine hoff.bind_eq fun _ => (smoothed_setController _ _).bind_eq fun _ => ?_
    refine mirrors_get_bind fun c₁ c₁' h₁ => ?_
    rw [hc.clock_eq, h₁.clock_eq]
    exact mirrors_pure rfl

end ChannelM

namespace Channel

/-- Slurring is conservative. A phrase that is played on a channel that sounds and does not slur
takes the ticks that it takes without its slurs, makes the same strikes on the same ticks, and
leaves the same promises; and a release that it leaves in the track stands there without the slurs
as well. -/
theorem conservative_of_playPhrase {c c₁ c₂ : Channel} {ticks ticks' : Nat} (p : Phrase)
    (hc : c.Reachable) (hmuted : c.muted = false) (hslurred : c.slurred = false)
    (hslurs : ChannelM.playPhrase p c = .ok ticks c₁)
    (hplain : ChannelM.playPhrase p.unslurred c = .ok ticks' c₂) :
    ticks = ticks' ∧ c₁.clock = c₂.clock ∧
      c₁.track.strikesSince c.track.nextHandle = c₂.track.strikesSince c.track.nextHandle ∧
      c₁.pending = c₂.pending ∧
      (c₁.track.events.filter (·.message.isNoteOff) : Multiset Event) ≤
        c₂.track.events.filter (·.message.isNoteOff) := by
  have halike := (ChannelM.smoothed_playPhrase p).alike
    (.refl (consistent_of_reachable hc) hmuted hslurred)
  rw [hslurs, hplain] at halike
  obtain ⟨hticks, h⟩ := halike
  refine ⟨hticks, h.clock_eq, h.tracks.strikes, h.pending_eq, ?_⟩
  have hperm : ∀ t : Track, (t.events.filter (·.message.isNoteOff)).Perm t.releases :=
    fun t => (List.mergeSort_perm ..).filter _
  rw [Multiset.coe_eq_coe.2 (hperm c₁.track), Multiset.coe_eq_coe.2 (hperm c₂.track)]
  exact Multiset.coe_le.2 h.tracks.releases.subperm

/-- One key struck again and again, slurred at first, in a chord and in a strum, and with a release
that outlives its element. -/
def insistent : Phrase where
  melody := ⟨[⟨.pitch .c, .plain⟩, ⟨.chord ⟨[.c, .e]⟩, .tenuto⟩, ⟨.chord ⟨[.c, .g]⟩, .gliscando⟩]⟩
  rhythm := ⟨[⟨0.5, true⟩, ⟨0.25, true⟩, ⟨0.25, true⟩, ⟨0.5, false⟩]⟩

/-- Played with its slurs, the phrase leaves fewer releases. -/
theorem conservative_of_playPhrase_insistent :
    let c : Channel := { track := { channel := 0 } }
    let c₁ := (ChannelM.playPhrase insistent).leaves c
    let c₂ := (ChannelM.playPhrase insistent.unslurred).leaves c
    c.Reachable ∧ c.muted = false ∧ c.slurred = false ∧
      (∃ ticks, ChannelM.playPhrase insistent c = .ok ticks c₁ ∧
        ChannelM.playPhrase insistent.unslurred c = .ok ticks c₂) ∧
      c₁.track.releases.length < c₂.track.releases.length ∧
      c₁.clock = c₂.clock ∧
      c₁.track.strikesSince c.track.nextHandle = c₂.track.strikesSince c.track.nextHandle ∧
      c₁.pending = c₂.pending ∧
      (c₁.track.events.filter (·.message.isNoteOff) : Multiset Event) ≤
        c₂.track.events.filter (·.message.isNoteOff) := by
  intro c c₁ c₂
  have hfresh : onTrack { channel := 0 } false .standard = .ok c := rfl
  have hc : c.Reachable := ⟨_, _, _, c, [], hfresh, rfl⟩
  obtain ⟨ticks, hslurs⟩ := ChannelM.eq_ok_of_succeeds (m := ChannelM.playPhrase insistent) (c := c)
    (by decide +kernel)
  obtain ⟨ticks', hplain⟩ := ChannelM.eq_ok_of_succeeds
    (m := ChannelM.playPhrase insistent.unslurred) (c := c) (by decide +kernel)
  have hfewer : c₁.track.releases.length < c₂.track.releases.length := by decide +kernel
  have hsame := conservative_of_playPhrase insistent hc rfl rfl hslurs hplain
  exact ⟨hc, rfl, rfl, ⟨ticks, hslurs, hsame.1 ▸ hplain⟩, hfewer, hsame.2⟩

end Channel

end MidiScore
