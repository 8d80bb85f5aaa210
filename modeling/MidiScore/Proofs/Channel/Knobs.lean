import MidiScore.Proofs.Channel.Moments
import MidiScore.Proofs.Channel.Shaping

/-!
# Knobs that are turned for a sound

Some articulations turn the knobs for the attack and the release time when their sound begins, and
promise to turn them back when it ends. Where nothing else that is promised turns these knobs, they
stand where the articulation wants them as long as the sound lasts, are turned back directly behind
its releases, and stand after a phrase where they stood before (`turnsBack_of_playPhrase`).
-/

namespace MidiScore

open Channel ChannelM

/-! ## Passages and their knobs -/

namespace Passage

variable (v : Passage)

/-- The ticks that the sound lasts. -/
def duration : Nat :=
  v.begun.soundingTicks v.sound v.beat

/-- The tick on which the sound ends. -/
def releaseTick : Nat :=
  v.begun.tickAfter v.duration

/-- The tick on which the beat ends. -/
def endTick : Nat :=
  v.struck.clock + v.struck.timing.ticksInBeat v.beat

/-- The keys that are struck. -/
def keys : List Nat :=
  v.sound.playable.tones.filterMap v.begun.soundingKey

/-- The knobs that are turned, with where they stood before. -/
def lent : List (Nat × Nat) :=
  restoring v.sound.articulation.knobs v.before.controllerValue

/-- Where the knobs are asked to stand while the sound lasts. Those that are not turned stay where
they are. -/
def asked : Nat → Nat :=
  turnedFrom v.sound.articulation.knobs v.before.controllerValue

/-- The releases of the keys. -/
def releases : List Action :=
  v.keys.map (.noteOff · v.sound.articulation.offVelocity)

/-- What turns the knobs back. -/
def restores : List Action :=
  v.lent.map fun knob => .turnKnob knob.1 knob.2

theorem nodup_lent : (v.lent.map (·.1)).Nodup := by
  unfold lent restoring
  rw [List.map_map]
  exact v.sound.articulation.nodup_knobs

theorem shapes_of_mem_lent : ∀ knob ∈ v.lent, Shapes knob.1 := by
  intro knob hknob
  obtain ⟨other, hother, rfl⟩ := List.mem_map.1 hknob
  exact v.sound.articulation.shapes_of_mem_knobs other hother

end Passage

/-- The knobs that shape sounds stand at `w`. -/
def Channel.Holds (w : Nat → Nat) (c : Channel) : Prop :=
  ∀ n, Shapes n → c.controllerValue n = w n

/-- Neither the slur nor the pedal is seen by the knobs that shape sounds. -/
theorem ChannelM.shapes_of_changeSlur {slurring slurred : Bool} {c c' : Channel} {u : Unit}
    (h : changeSlur slurring slurred c = .ok u c') :
    (∀ n, Shapes n → c'.controller n = c.controller n) ∧ c'.number = c.number ∧
      c'.muted = c.muted ∧ c'.timing = c.timing ∧ c'.pending = c.pending := by
  rcases of_changeSlur h with ⟨-, rfl⟩ | ⟨-, rfl⟩
  · exact ⟨fun _ _ => rfl, rfl, rfl, rfl, rfl⟩
  · refine ⟨fun n hn => controller_setController.trans (if_neg fun hsame => ?_),
      congrArg Setup.number (setup_movesPedal c slurred), rfl, rfl, rfl⟩
    rcases hn with rfl | rfl <;> exact absurd hsame.1 (by decide)

namespace ChannelM.Succeeds

variable {slurring : Bool} {v : Passage}

theorem poised_begun (h : Succeeds slurring v)
    (hknob : ∀ n, Shapes n → (v.before.controller n).isKnob) :
    v.begun.Poised v.begun.setup v.before.controllerValue := by
  obtain ⟨hsame, -⟩ := shapes_of_changeSlur h.slur
  refine ⟨rfl, fun n hn => hsame n hn ▸ hknob n hn, fun n hn => ?_⟩
  unfold controllerValue
  rw [hsame n hn]

theorem poised_turned (h : Succeeds slurring v)
    (hknob : ∀ n, Shapes n → (v.before.controller n).isKnob) :
    (v.begun.turned v.sound.articulation.knobs).Poised v.begun.setup v.asked :=
  (h.poised_begun hknob).turned v.sound.articulation.nodup_knobs
    v.sound.articulation.shapes_of_mem_knobs

/-- A sound that turns knobs leaves them turned, and promises its releases and the knobs' return. -/
theorem poised_struck (h : Succeeds slurring v)
    (hknob : ∀ n, Shapes n → (v.before.controller n).isKnob)
    (hknobs : v.sound.articulation.knobs ≠ []) (hsounds : ¬ v.sound.playable.isRest) :
    v.struck.Poised v.begun.setup v.asked ∧
      v.struck.pending = v.before.pending.pushAll
        ((v.releases ++ v.restores).map (v.releaseTick, ·)) := by
  have hbegun := h.poised_begun hknob
  obtain ⟨-, -, -, -, hpending⟩ := shapes_of_changeSlur h.slur
  obtain ⟨restores, c₁, c₂, hturn, hstrike, hpromise⟩ := of_playSound hsounds h.sound
  have hnodup := v.sound.articulation.nodup_knobs
  obtain ⟨rfl, rfl⟩ := of_turnKnobs hnodup hturn
  obtain ⟨hsetup, hclock, hagenda⟩ := fields_turned v.begun v.sound.articulation.knobs
  have hsetup₂ := eq_of_strikePlayable aloof_setup hstrike
  have hclock₂ := eq_of_strikePlayable aloof_clock hstrike
  have hstruck : c₂.Poised v.begun.setup v.asked := (h.poised_turned hknob).congr hsetup₂ fun n _ =>
    eq_of_strikePlayable (aloof_controller n) hstrike
  rw [eq_of_promiseKnobs hpromise]
  refine ⟨hstruck.congr rfl fun _ _ => rfl, ?_⟩
  rw [strikePlayable_eq hknobs] at hstrike
  have hkeys : (v.begun.turned v.sound.articulation.knobs).soundingKey = v.begun.soundingKey :=
    funext (soundingKey_of_setup hsetup)
  have hlent : restoring v.sound.articulation.knobs v.begun.controllerValue = v.lent := by
    refine List.map_congr_left fun knob hmem => congrArg (knob.1, ·) ?_
    exact hbegun.value _ (v.sound.articulation.shapes_of_mem_knobs knob hmem)
  dsimp only
  rw [pending_of_playNotes hstrike, hkeys, hagenda, hpending, hlent,
    tickAfter_of_clock (hclock₂.trans hclock), tickAfter_of_clock hclock, List.map_append,
    Agenda.pushAll_append]
  rfl

end ChannelM.Succeeds

/-! ## The way to the release -/

/-- Until `tick` comes the knobs stand at `w`; then `block` is run in one piece, and nothing else
that is due or pending turns them. -/
inductive Awaits (x : Setup) (w : Nat → Nat) (block : List Action) (tick : Nat) :
    Moment → Prop where
  | pending {due : List Action} {c : Channel} (front back : List Action) (poised : c.Poised x w)
    (le : c.clock ≤ tick) (spared : ∀ a ∈ due, a.Spares)
    (others : ∀ q ∈ c.pending.toList, q.1 ≠ tick → q.2.Spares)
    (on : c.pending.on tick = front ++ block ++ back) (around : ∀ a ∈ front ++ back, a.Spares) :
    Awaits x w block tick ⟨due, c⟩
  | due {c : Channel} (front back : List Action) (poised : c.Poised x w) (clock : c.clock = tick)
    (confined : Confined (¬ Shapes ·) (front ++ back) c) :
    Awaits x w block tick ⟨front ++ block ++ back, c⟩

/-- The block comes next. -/
def Arrives (block : List Action) (tick : Nat) (m : Moment) : Prop :=
  ∃ back, m.due = block ++ back ∧ m.now.clock = tick ∧ Confined (¬ Shapes ·) back m.now

namespace Awaits

variable {x : Setup} {w : Nat → Nat} {block due front back : List Action} {tick target : Nat}
  {m m' : Moment} {c c' : Channel} {a : Action}

theorem poised (h : Awaits x w block tick m) : m.now.Poised x w := by
  cases h <;> assumption

/-- A bucket ahead of the block keeps it waiting, and the block's own has it in one piece. -/
theorem take {t : Nat} {actions : List Action} {rest : Agenda Action} (hblock : block ≠ [])
    (poised : c.Poised x w) (le : c.clock ≤ tick)
    (others : ∀ q ∈ c.pending.toList, q.1 ≠ tick → q.2.Spares)
    (on : c.pending.on tick = front ++ block ++ back) (around : ∀ a ∈ front ++ back, a.Spares)
    (hpop : c.pending.popDue? target = some (t, actions, rest)) :
    Awaits x w block tick ⟨actions, { c with pending := rest, clock := max c.clock t }⟩ := by
  obtain ⟨hactions, hrest⟩ := Agenda.on_of_popDue? hpop
  have hsub : ∀ q ∈ rest.toList, q ∈ c.pending.toList := fun q hq => by
    rw [Agenda.toList_of_popDue? hpop]
    exact List.mem_append_right _ hq
  have hpoised : Poised x w { c with pending := rest, clock := max c.clock t } :=
    poised.congr rfl fun _ _ => rfl
  by_cases ht : t = tick
  · subst ht
    rw [← hactions, on]
    refine .due front back hpoised (Nat.max_eq_right le) ⟨around, fun q hq => ?_⟩
    exact others q (hsub q hq) (Nat.ne_of_gt (Agenda.lt_of_popDue? hpop q hq))
  · obtain ⟨a, ha⟩ := List.exists_mem_of_ne_nil block hblock
    have hmem : (tick, a) ∈ c.pending.toList := by
      rw [← Agenda.mem_on, on]
      exact List.mem_append_left _ (List.mem_append_right _ ha)
    refine .pending front back hpoised
      (Nat.max_le.2 ⟨le, Agenda.tick_le_of_popDue? hpop _ hmem⟩) (fun b hb => ?_)
      (fun q hq => others q (hsub q hq)) ((hrest tick (Ne.symm ht)).trans on) around
    rw [← hactions, Agenda.mem_on] at hb
    exact others _ hb ht

/-- What an action promises stands behind the block. -/
theorem run (poised : c.Poised x w) (le : c.clock ≤ tick) (spared : ∀ b ∈ a :: due, b.Spares)
    (others : ∀ q ∈ c.pending.toList, q.1 ≠ tick → q.2.Spares)
    (on : c.pending.on tick = front ++ block ++ back) (around : ∀ a ∈ front ++ back, a.Spares)
    (hrun : run a c = .ok () c') : Awaits x w block tick ⟨due, c'⟩ := by
  obtain ⟨ha, hrest⟩ := List.forall_mem_cons.1 spared
  have hpoised := poised.run ha hrun
  have hle : c'.clock ≤ tick := (fixes_clock_run a).of_ok hrun ▸ le
  rcases pending_of_run hrun with hp | ⟨t, key, velocity, -, hp⟩
  · exact .pending front back hpoised hle hrest (hp ▸ others) (hp ▸ on) around
  · have hoff : (Action.noteOff key velocity).Spares := nofun
    refine .pending front (back ++ if t = tick then [.noteOff key velocity] else []) hpoised hle
      hrest (fun ⟨u, b⟩ hq => ?_) ?_ fun b hb => ?_
    · rw [hp] at hq
      rcases Agenda.mem_toList_push.1 hq with ⟨-, rfl⟩ | hq
      · exact fun _ => hoff
      · exact others _ hq
    · rw [hp, Agenda.on_push, on, List.append_assoc]
    · rw [← List.append_assoc] at hb
      rcases List.mem_append.1 hb with hb | hb
      · exact around b hb
      · split at hb
        · exact List.mem_singleton.1 hb ▸ hoff
        · cases hb

theorem step (hblock : block ≠ []) (hstep : Moment.Step target m m')
    (h : Awaits x w block tick m) (hm : ¬ Arrives block tick m) : Awaits x w block tick m' := by
  cases h with
  | pending front back poised le spared others on around =>
    cases hstep with
    | take hpop => exact take hblock poised le others on around hpop
    | run hrun => exact run poised le spared others on around hrun
  | @due c front back poised clock confined =>
    cases front with
    | nil => exact absurd ⟨back, rfl, clock, confined⟩ hm
    | cons a front =>
      cases hstep with
      | run hrun =>
        exact .due front back (poised.run (confined.due a List.mem_cons_self) hrun)
          (((fixes_clock_run a).of_ok hrun).trans clock) (confined.run hrun)

/-- When nothing is due any more, the block has been run. -/
theorem not_idle {d : Channel} (hblock : block ≠ []) (htick : tick ≤ target)
    (hidle : d.pending.popDue? target = none) : ¬ Awaits x w block tick ⟨[], d⟩ := by
  intro h
  obtain ⟨a, ha⟩ := List.exists_mem_of_ne_nil block hblock
  generalize hm : (⟨[], d⟩ : Moment) = m at h
  cases h with
  | pending front back poised le spared others on around =>
    cases hm
    have hmem : (tick, a) ∈ d.pending.toList := by
      rw [← Agenda.mem_on, on]
      exact List.mem_append_left _ (List.mem_append_right _ ha)
    exact absurd (Agenda.lt_of_popDue?_eq_none hidle _ hmem) (Nat.not_lt.2 htick)
  | due front back poised clock confined =>
    have hnil := congrArg Moment.due hm
    simp [hblock] at hnil

end Awaits

/-! ## Knobs that nothing turns -/

/-- The knobs stand at `w`, and no action that is due or pending turns them. -/
structure Channel.Steady (x : Setup) (w : Nat → Nat) (due : List Action) (c : Channel) : Prop where
  poised : c.Poised x w
  confined : Confined (¬ Shapes ·) due c

namespace Channel.Steady

variable {x : Setup} {w : Nat → Nat} {c c' : Channel} {u : Unit}

theorem cons {a : Action} {due : List Action} (h : Steady x w due c) (ha : a.Spares) :
    Steady x w (a :: due) c :=
  ⟨h.poised, ⟨List.forall_mem_cons.2 ⟨ha, h.confined.due⟩, h.confined.pending⟩⟩

theorem run {a : Action} {due : List Action} (h : Steady x w (a :: due) c)
    (hrun : run a c = .ok u c') : Steady x w due c' :=
  ⟨h.poised.run (h.confined.due a List.mem_cons_self) hrun, h.confined.run hrun⟩

theorem clocked : Clocked (Steady x w) where
  pop hpop h := ⟨h.poised.congr rfl fun _ _ => rfl, h.confined.pop hpop⟩
  run _ _ _ _ _ h hrun := h.run hrun
  rest _ _ h := ⟨h.poised.congr rfl fun _ _ => rfl, h.confined.congr rfl⟩

theorem soundableOn : SoundableOn (¬ Shapes ·) (Keeps (Steady x w [])) where
  toCompositional := compositional_keeps
  strike key delta duration offVelocity := by
    intro c u c' h hstrike
    have hplay : (Action.play key delta duration offVelocity).Spares := nofun
    exact (h.cons hplay).run hstrike
  later delta action ha := by
    intro c u c' h hlater
    refine ⟨?_, Confined.soundableOn.later delta ha c u c' h.confined hlater⟩
    rw [eq_of_later hlater]
    exact h.poised.congr rfl fun _ _ => rfl
  setController {number} value hnumber := by
    intro c u c' h hset
    refine ⟨h.poised.congr ((fixes_setup_setController number value).of_ok hset) fun n hn => ?_, ?_⟩
    · have hne : number ≠ n := fun heq => hnumber (heq ▸ hn)
      exact (fixes_controller_setController hne value).of_ok hset
    · rw [eq_of_setController hset]
      exact h.confined.congr rfl

end Channel.Steady

/-! ## Sounds that turn knobs -/

/-- The sound of a passage, which has been struck, lasts until `off`, where its releases have been
run; its knobs are turned back in `restored`, and `rest` is where the beat ends. -/
structure Passage.TurnsBackAt (v : Passage) (off restored rest : Channel) (back : List Action) :
    Prop where
  sounding : Moment.Way v.endTick (Holds v.asked) ⟨[], v.struck⟩ ⟨v.restores ++ back, off⟩
  clock : off.clock = v.releaseTick
  /-- The releases are the last that a channel that sounds has written. -/
  released : v.before.muted = false →
    (v.keys.map fun key => some ⟨v.releaseTick,
      .noteOff v.before.number key v.sound.articulation.offVelocity⟩) <:+ off.track.log.toList
  run : runAll v.restores off = .ok () restored
  /-- The knobs are written directly behind the releases. -/
  written : v.before.muted = false →
    restored.track.log.toList = off.track.log.toList ++ v.lent.map fun knob =>
      some ⟨v.releaseTick, .controlChange v.before.number knob.1 knob.2⟩
  holds : restored.Holds v.before.controllerValue
  resting : Moment.Way v.endTick (Holds v.before.controllerValue) ⟨back, restored⟩ ⟨[], rest⟩
  ended : v.after = { rest with clock := v.endTick }

/-- The knobs stand where the articulation of a passage asks for while its sound lasts, and are
turned back behind its releases. -/
structure Passage.TurnsBack (v : Passage) : Prop where
  strikes : ∀ s ∈ v.sound.strikes v.beat v.begun, s.before.Holds v.asked
  struck : v.struck.Holds v.asked
  back : ∃ off restored rest back, v.TurnsBackAt off restored rest back

namespace Passage

variable {v : Passage} {x : Setup} {w : Nat → Nat} {back : List Action} {a : Action} {tick : Nat}
  {off : Channel}

/-- The releases leave the knobs where they are. -/
theorem keeps_release (ha : a ∈ v.releases) :
    Keeps (fun c => c.Steady x w back ∧ c.clock = tick) (run a) := by
  intro c u c' ⟨hsteady, hnow⟩ hrun
  obtain ⟨key, -, rfl⟩ := List.mem_map.1 ha
  have hspares : (Action.noteOff key v.sound.articulation.offVelocity).Spares := nofun
  exact ⟨(hsteady.cons hspares).run hrun, ((fixes_clock_run _).of_ok hrun).trans hnow⟩

/-- What turns the knobs back leaves them where they stood. -/
theorem steady_restored (hoff : off.Steady x v.asked back) :
    (off.turned v.lent).Steady x v.before.controllerValue back := by
  have hturned := hoff.poised.turned v.nodup_lent v.shapes_of_mem_lent
  refine ⟨⟨hturned.setup, hturned.knob, fun n hn => ?_⟩,
    hoff.confined.congr (fields_turned ..).2.2⟩
  exact (hturned.value n hn).trans (turnedFrom_restoring ..)

end Passage

namespace ChannelM.Succeeds

variable {slurring : Bool} {v : Passage}

/-- A sound that does not outlast its beat is over when the beat is. -/
theorem releaseTick_le_endTick (h : Succeeds slurring v)
    (hshort : v.duration ≤ v.begun.timing.ticksInBeat v.beat) : v.releaseTick ≤ v.endTick := by
  have htiming : v.struck.timing = v.begun.timing := congrArg Setup.timing h.setup_struck
  have hsigned := signed_le v.duration
  unfold Passage.releaseTick Passage.endTick tickAfter
  rw [h.clock_struck, htiming]
  omega

theorem drain_endTick (h : Succeeds slurring v) :
    ∃ t, Channel.drain v.endTick v.struck = .ok t v.after := by
  obtain ⟨t, hadvance⟩ := h.advance
  exact ⟨t, drain_of_advanceBeat hadvance⟩

/-- What is struck with knobs that are turned awaits its release. -/
theorem awaits (h : Succeeds slurring v)
    (hknob : ∀ n, Shapes n → (v.before.controller n).isKnob)
    (hconfined : Confined (¬ Shapes ·) [] v.before) (hknobs : v.sound.articulation.knobs ≠ [])
    (hsounds : ¬ v.sound.playable.isRest) :
    Awaits v.begun.setup v.asked (v.releases ++ v.restores) v.releaseTick ⟨[], v.struck⟩ := by
  obtain ⟨hstruck, hpending⟩ := h.poised_struck hknob hknobs hsounds
  have hbyTick := Agenda.byTick_toList_pushAll v.before.pending
    ((v.releases ++ v.restores).map (v.releaseTick, ·))
  rw [← hpending] at hbyTick
  have hle : v.struck.clock ≤ v.releaseTick := by
    rw [h.clock_struck]
    exact Nat.le_add_right ..
  refine .pending (v.before.pending.on v.releaseTick) [] hstruck hle nofun (fun q hq hne => ?_) ?_
    fun a ha => ?_
  · rcases List.mem_append.1 (hbyTick.mem_iff.1 hq) with hq | hq
    · exact hconfined.pending q hq
    · obtain ⟨a, -, rfl⟩ := List.mem_map.1 hq
      exact absurd rfl hne
  · rw [hpending, Agenda.on_pushAll, List.append_nil]
  · rw [List.append_nil, Agenda.mem_on] at ha
    exact hconfined.pending _ ha

/-- The releases and the knobs' return are run in one piece when their tick has come. -/
theorem exists_turnsBackAt (h : Succeeds slurring v)
    (hknob : ∀ n, Shapes n → (v.before.controller n).isKnob)
    (hconfined : Confined (¬ Shapes ·) [] v.before) (hknobs : v.sound.articulation.knobs ≠ [])
    (hsounds : ¬ v.sound.playable.isRest)
    (hshort : v.duration ≤ v.begun.timing.ticksInBeat v.beat) :
    ∃ off restored rest back, v.TurnsBackAt off restored rest back ∧
      rest.Steady v.begun.setup v.before.controllerValue [] := by
  obtain ⟨-, hnumber, hmuted, -, -⟩ := shapes_of_changeSlur h.slur
  obtain ⟨t, hdrain⟩ := h.drain_endTick
  obtain ⟨rest, hway, hidle, hended⟩ := Moment.of_drain hdrain
  have hblock : v.releases ++ v.restores ≠ [] := by
    unfold Passage.restores Passage.lent restoring
    simp [hknobs]
  obtain ⟨⟨due, c₁⟩, hto, hawaits, ⟨back, hdue, hclock, hspared⟩, hrest⟩ := hway.exists_first
    (P := Holds v.asked) (fun m m' hstep => Awaits.step hblock hstep)
    (fun m hm => hm.poised.value) (h.awaits hknob hconfined hknobs hsounds)
    (Awaits.not_idle hblock (h.releaseTick_le_endTick hshort) hidle)
  obtain rfl : due = v.releases ++ (v.restores ++ back) := by
    rw [← List.append_assoc]
    exact hdue
  have hc₁ : c₁.Steady v.begun.setup v.asked back := ⟨hawaits.poised, hspared⟩
  have hnumber₁ : c₁.number = v.before.number :=
    (congrArg Setup.number hawaits.poised.setup).trans hnumber
  have hmuted₁ : c₁.muted = v.before.muted :=
    (congrArg Setup.muted hawaits.poised.setup).trans hmuted
  -- the releases leave the knobs where they are
  obtain ⟨off, hoffs, hrest⟩ := Moment.exists_runAll rfl hrest
  have hreleasing : Moment.Way v.endTick _ ⟨v.releases ++ (v.restores ++ back), c₁⟩
      ⟨v.restores ++ back, off⟩ ∧ _ :=
    Moment.way_of_runAll (fun _ => Passage.keeps_release) ⟨hc₁, hclock⟩ hoffs
  obtain ⟨hreleasing, hoff, hoffClock⟩ := hreleasing
  have hoffNumber : off.number = v.before.number :=
    (congrArg Setup.number hoff.poised.setup).trans hnumber
  have hoffMuted : off.muted = v.before.muted :=
    (congrArg Setup.muted hoff.poised.setup).trans hmuted
  -- what turns the knobs back leaves them where they stood
  obtain ⟨restored, hrun, hrest⟩ := Moment.exists_runAll rfl hrest
  obtain rfl : restored = off.turned v.lent := eq_of_runAll_turnKnob hrun
  have hrestored := Passage.steady_restored hoff
  obtain ⟨hresting, hend⟩ := hrest.of_invariant (P := Holds v.before.controllerValue)
    (I := fun m => m.now.Steady v.begun.setup v.before.controllerValue m.due)
    (fun _ _ hstep => hstep.keeps Steady.clocked) (fun _ hm => hm.poised.value) hrestored
  refine ⟨off, _, rest, back, ⟨?_, hoffClock, fun hm => ?_, hrun, fun hm => ?_,
    hrestored.poised.value, hresting, hended⟩, hend⟩
  · exact hto.trans (hreleasing.weaken fun _ hsteady => hsteady.1.poised.value)
  · rw [log_of_runAll_noteOff (hmuted₁.trans hm) hoffs, hclock, hnumber₁]
    exact List.suffix_append ..
  · rw [log_turned (hoffMuted.trans hm), hoffClock, hoffNumber]

/-- Keys are struck with the knobs that the articulation asks for. -/
theorem holds_strikes (h : Succeeds slurring v)
    (hknob : ∀ n, Shapes n → (v.before.controller n).isKnob)
    (hsounds : ¬ v.sound.playable.isRest) :
    ∀ s ∈ v.sound.strikes v.beat v.begun, s.before.Holds v.asked := by
  obtain ⟨restores, c₁, c₂, hturn, hstrike, -⟩ := of_playSound hsounds h.sound
  obtain ⟨-, rfl⟩ := of_turnKnobs v.sound.articulation.nodup_knobs hturn
  unfold Sound.strikes
  rw [if_neg hsounds]
  dsimp only
  rw [following_of_ok hturn]
  intro s hs n hn
  have hall := (rehearsal_of_aloof aloof_controllers _).strikePlayable v.sound.playable
    v.sound.articulation _ [] _ () c₂ ⟨rfl, nofun⟩ hstrike
  have hsame := hall.2 s hs
  rw [← (h.poised_turned hknob).value n hn]
  unfold controllerValue controller
  rw [hsame]

/-- A passage leaves the knobs where it found them, also one that turns none. -/
theorem steady_after (h : Succeeds slurring v) {w : Nat → Nat}
    (hsteady : v.before.Steady v.before.setup w [])
    (hshort : v.sound.articulation.knobs ≠ [] →
      v.duration ≤ v.begun.timing.ticksInBeat v.beat) :
    v.after.Steady v.after.setup w [] ∧
      (v.sound.articulation.knobs ≠ [] → ¬ v.sound.playable.isRest → v.TurnsBack) := by
  have hknob := hsteady.poised.knob
  have hbegun : v.begun.Steady v.begun.setup v.before.controllerValue [] :=
    ⟨h.poised_begun hknob, hsteady.confined.congr (shapes_of_changeSlur h.slur).2.2.2.2⟩
  have hafter : v.after.Steady v.begun.setup v.before.controllerValue [] →
      v.after.Steady v.after.setup w [] := by
    rw [h.setup_after]
    exact fun hend => ⟨⟨hend.poised.setup, hend.poised.knob, fun n hn =>
      (hend.poised.value n hn).trans (hsteady.poised.value n hn)⟩, hend.confined⟩
  by_cases hturns : v.sound.articulation.knobs ≠ [] ∧ ¬ v.sound.playable.isRest
  · obtain ⟨hknobs, hsounds⟩ := hturns
    obtain ⟨off, restored, rest, back, hback, hrest⟩ :=
      h.exists_turnsBackAt hknob hsteady.confined hknobs hsounds (hshort hknobs)
    refine ⟨hafter ?_, fun _ _ => ⟨h.holds_strikes hknob hsounds, ?_, off, restored, rest, back,
      hback⟩⟩
    · rw [hback.ended]
      exact ⟨hrest.poised.congr rfl fun _ _ => rfl, hrest.confined.congr rfl⟩
    · exact (h.poised_struck hknob hknobs hsounds).1.value
  · have hstruck : v.struck.Steady v.begun.setup v.before.controllerValue [] := by
      by_cases hrest : v.sound.playable.isRest
      · have hsound := h.sound
        unfold playSound at hsound
        rw [if_pos hrest] at hsound
        generalize v.struck = struck at hsound ⊢
        cases hsound
        exact hbegun
      · have hnone : v.sound.articulation.knobs = [] :=
          by_contra fun hknobs => hturns ⟨hknobs, hrest⟩
        refine Steady.soundableOn.keeps_playSound v.sound v.beat ?_ _ _ _ hbegun h.sound
        rw [hnone]
        exact nofun
    obtain ⟨t, hadvance⟩ := h.advance
    exact ⟨hafter (Steady.clocked.advanceBeat _ _ _ _ hstruck hadvance), fun hknobs hsounds =>
      absurd ⟨hknobs, hsounds⟩ hturns⟩

end ChannelM.Succeeds

/-- What playing a phrase does to the knobs that shape sounds. -/
structure Phrase.TurnsBack (p : Phrase) (c c' : Channel) : Prop where
  holds : c'.Holds c.controllerValue
  spared : ∀ q ∈ c'.pending.toList, q.2.Spares
  elements : (p.passages c).map (fun v => (v.sound, v.beat)) = p.elements
  leads : p.LeadsTo c c'
  before : ∀ v ∈ p.passages c, v.before.Holds c.controllerValue ∧ v.before.muted = c.muted
  passages : ∀ v ∈ p.passages c, v.sound.articulation.knobs ≠ [] →
    ¬ v.sound.playable.isRest → v.TurnsBack

namespace ChannelM

/-- If no action that is pending turns the knobs that shape sounds, and a sound that turns them
does not outlast its beat, then a phrase puts them back behind each sound and leaves them where it
found them. -/
theorem turnsBack_of_playPhrase (c : Channel) (p : Phrase) (hc : c.Reachable)
    (hp : ∀ q ∈ c.pending.toList, q.2.Spares)
    (hshort : ∀ element ∈ p.elements, element.1.articulation.knobs ≠ [] →
      c.soundingTicks element.1 element.2 ≤ c.timing.ticksInBeat element.2)
    {t : Nat} {c' : Channel} (h : playPhrase p c = .ok t c') : p.TurnsBack c c' := by
  have hstart : c.Steady c.setup c.controllerValue [] :=
    ⟨⟨rfl, isKnob_of_reachable hc, fun _ _ => rfl⟩, nofun, hp⟩
  have hleads := leadsTo_of_playPhrase h
  by_cases hsize : p.size = 0
  · have hpassages : p.passages c = [] := by
      unfold Phrase.passages
      rw [Phrase.elements_of_size hsize]
      rfl
    unfold playPhrase at h
    rw [if_pos hsize] at h
    cases h
    refine ⟨hstart.poised.value, hp, map_passagesOf .., hleads, fun v hv => ?_, fun v hv => ?_⟩ <;>
      exact absurd (hpassages ▸ hv) List.not_mem_nil
  · obtain ⟨c₁, hplay, hlift⟩ := of_playPhrase hsize h
    obtain ⟨hall, hend⟩ := of_passages
      (P := fun _ c' => c'.timing = c.timing ∧ c'.muted = c.muted ∧
        c'.Steady c'.setup c.controllerValue [])
      (Q := fun _ v => (v.before.Holds c.controllerValue ∧ v.before.muted = c.muted) ∧
        (v.sound.articulation.knobs ≠ [] → ¬ v.sound.playable.isRest → v.TurnsBack))
      (fun k v hk helement hv ⟨htiming, hmuted, hsteady⟩ => by
        obtain ⟨-, -, hsame, htimed, -⟩ := shapes_of_changeSlur hv.slur
        have hbegun := htimed.trans htiming
        have hduration : v.duration = c.soundingTicks v.sound v.beat := by
          unfold Passage.duration Channel.soundingTicks
          rw [hbegun]
        have hfits := hshort _ (Phrase.mem_elements hk helement)
        rw [← hbegun] at hfits
        obtain ⟨hafter, hturns⟩ := hv.steady_after hsteady fun hknobs =>
          hduration ▸ hfits hknobs
        exact ⟨⟨⟨hsteady.poised.value, hmuted⟩, hturns⟩,
          (congrArg Setup.timing hv.setup_after).trans hbegun,
          (congrArg Setup.muted hv.setup_after).trans (hsame.trans hmuted), hafter⟩)
      ⟨rfl, rfl, hstart⟩ hplay
    have hpassage : ∀ v ∈ p.passages c,
        (v.before.Holds c.controllerValue ∧ v.before.muted = c.muted) ∧
        (v.sound.articulation.knobs ≠ [] → ¬ v.sound.playable.isRest → v.TurnsBack) := by
      intro v hv
      obtain ⟨k, hk⟩ := List.mem_iff_getElem?.1 hv
      exact hall k v hk
    obtain ⟨hsame, -, -, -, hpending⟩ := shapes_of_changeSlur hlift
    refine ⟨fun n hn => ?_, hpending ▸ hend.2.2.confined.pending, map_passagesOf .., hleads,
      fun v hv => (hpassage v hv).1, fun v hv => (hpassage v hv).2⟩
    rw [← hend.2.2.poised.value n hn]
    unfold controllerValue
    rw [hsame n hn]

/-- A channel whose releases were made longer, with a strike, a pedal and another knob to come. -/
def resonant : Channel :=
  ({ track := { channel := 0 } } : Channel).performAll
    [.setController releaseTime 90, .later 100 (.play 60 0 300 96), .later 240 (.pressPedal 64),
      .later 700 (.turnKnob 7 20)]

/-- A short tone, a short chord, a longer tone and a rest. -/
def brisk : Phrase where
  melody := ⟨[⟨.pitch .c, .staccato⟩, ⟨.chord ⟨[.c, .rest, .g]⟩, .marcato⟩, ⟨.pitch .e, .tenuto⟩,
    ⟨.pitch .rest, .staccatissimo⟩]⟩
  rhythm := ⟨[.quarter, .eighth, .half]⟩

theorem turnsBack_of_playPhrase_brisk :
    resonant.Reachable ∧ (∀ q ∈ resonant.pending.toList, q.2.Spares) ∧
      (∀ element ∈ brisk.elements, element.1.articulation.knobs ≠ [] →
        resonant.soundingTicks element.1 element.2 ≤ resonant.timing.ticksInBeat element.2) ∧
      resonant.controllerValue releaseTime = 90 ∧
      ∃ t c', playPhrase brisk resonant = .ok t c' ∧ brisk.TurnsBack resonant c' := by
  have hc : resonant.Reachable := ⟨{ channel := 0 }, false, .standard, _, _, rfl, rfl⟩
  have hp : ∀ q ∈ resonant.pending.toList, q.2.Spares := by decide +kernel
  have hshort : ∀ element ∈ brisk.elements, element.1.articulation.knobs ≠ [] →
      resonant.soundingTicks element.1 element.2 ≤ resonant.timing.ticksInBeat element.2 := by
    decide +kernel
  obtain ⟨t, h⟩ := eq_ok_of_succeeds (m := playPhrase brisk) (c := resonant) (by decide +kernel)
  exact ⟨hc, hp, hshort, by decide +kernel, t, _, h,
    turnsBack_of_playPhrase resonant brisk hc hp hshort h⟩

/-- A pedal on the controller for the release time is promised. -/
def overridden : Channel :=
  ({ track := { channel := 0 } } : Channel).performAll [.later 300 (.pressPedal releaseTime)]

/-- One short tone. -/
def clipped : Phrase where
  melody := ⟨[⟨.pitch .c, .staccato⟩]⟩
  rhythm := ⟨[.quarter]⟩

/-- A knob does not stay where it was turned back to when a pedal of its number is promised, also if
no turn of a knob is. -/
theorem not_turnsBack_of_pressPedal :
    overridden.Reachable ∧ overridden.pending.toList = [(300, .pressPedal releaseTime)] ∧
      (∀ element ∈ clipped.elements,
        overridden.soundingTicks element.1 element.2 ≤ overridden.timing.ticksInBeat element.2) ∧
      ∃ t c', playPhrase clipped overridden = .ok t c' ∧
        overridden.controllerValue releaseTime = 64 ∧ c'.controllerValue releaseTime = 127 := by
  have hc : overridden.Reachable := ⟨{ channel := 0 }, false, .standard, _, _, rfl, rfl⟩
  obtain ⟨t, h⟩ := eq_ok_of_succeeds (m := playPhrase clipped) (c := overridden) (by decide +kernel)
  exact ⟨hc, by decide +kernel, by decide +kernel, t, _, h, by decide +kernel, by decide +kernel⟩

end ChannelM

end MidiScore
