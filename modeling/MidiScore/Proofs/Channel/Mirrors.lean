import MidiScore.Proofs.Channel.Clocked
import MidiScore.Proofs.Channel.Keys
import MidiScore.Proofs.Channel.Strikes
import MidiScore.Proofs.Music.Melody

/-!
# Two runs side by side

`Mirrors X R V m m'` compares `m` on one channel with `m'` on another that is related to it by `R`:
both succeed, with answers related by `V`, or both fail for the same cause, and the channels that
they leave are related again. Failures that `X` excuses are not compared. There is a rule for each
way in which operations are put together. Channels that send and remember the same mirror releases
and settings (`Sending`); when the clock runs, related channels take out the same buckets
(`Lockstep`); channels that mirror strikes, promises and controllers mirror sounds (`Resounding`);
and those that mirror all settings as well mirror phrases and ramps (`Mirroring`). The second
channel may play what the first plays moved by octaves.
-/

namespace MidiScore.ChannelM

variable {α α' β β' : Type}

/-- The failures of the first and of the second run that are not compared. -/
structure Excuses where
  first : Failure → Prop
  second : Failure → Prop

/-- Two outcomes are alike: two successes with answers related by `V` or two failures for the same
cause, with channels related by `R`. -/
def Alike (X : Excuses) (R : Channel → Channel → Prop) (V : α → α' → Prop) :
    EStateM.Result Failure Channel α → EStateM.Result Failure Channel α' → Prop
  | .ok a c, .ok a' c' => V a a' ∧ R c c'
  | .error e _, .ok .. => X.first e
  | .ok .., .error e' _ => X.second e'
  | .error e c, .error e' c' => X.first e ∨ X.second e' ∨ (e = e' ∧ R c c')

/-- From related channels, `m` and `m'` have outcomes that are alike. -/
structure Mirrors (X : Excuses) (R : Channel → Channel → Prop) (V : α → α' → Prop)
    (m : ChannelM α) (m' : ChannelM α') : Prop where
  alike : ∀ {c c' : Channel}, R c c' → Alike X R V (m c) (m' c')

section Rules

variable {X : Excuses} {R : Channel → Channel → Prop} {V : α → α' → Prop} {W : β → β' → Prop}
  {m : ChannelM α} {m' : ChannelM α'} {f : α → ChannelM β} {f' : α' → ChannelM β'}
  {c c' c₁ : Channel}

/-- The first run has failed, whatever the second does. -/
theorem Alike.of_first {e : Failure} (he : X.first e) (r : EStateM.Result Failure Channel α') :
    Alike X R V (.error e c : EStateM.Result Failure Channel α) r := by
  cases r with
  | ok => exact he
  | error => exact .inl he

/-- The second run has failed, whatever the first does. -/
theorem Alike.of_second {e : Failure} (he : X.second e) (r : EStateM.Result Failure Channel α) :
    Alike X R V r (.error e c : EStateM.Result Failure Channel α') := by
  cases r with
  | ok => exact he
  | error => exact .inr (.inl he)

theorem Alike.weaken {V' : α → α' → Prop} {r : EStateM.Result Failure Channel α}
    {r' : EStateM.Result Failure Channel α'} (h : Alike X R V r r')
    (hV : ∀ a a', V a a' → V' a a') : Alike X R V' r r' := by
  cases r <;> cases r'
  · exact ⟨hV _ _ h.1, h.2⟩
  all_goals exact h

theorem Alike.bind (hm : Alike X R V (m c) (m' c'))
    (hf : ∀ a a', V a a' → Mirrors X R W (f a) (f' a')) :
    Alike X R W ((m >>= f) c) ((m' >>= f') c') := by
  cases h : m c with
  | ok a c₁ =>
    cases h' : m' c' with
    | ok a' c₁' =>
      rw [h, h'] at hm
      rw [bind_of_ok h, bind_of_ok h']
      exact (hf a a' hm.1).alike hm.2
    | error e' c₁' =>
      rw [h, h'] at hm
      rw [bind_of_error h']
      exact Alike.of_second hm _
  | error e c₁ =>
    rw [bind_of_error h]
    cases h' : m' c' with
    | ok a' c₁' =>
      rw [h, h'] at hm
      exact Alike.of_first hm _
    | error e' c₁' =>
      rw [h, h'] at hm
      rw [bind_of_error h']
      exact hm

theorem Mirrors.bind (hm : Mirrors X R V m m')
    (hf : ∀ a a', V a a' → Mirrors X R W (f a) (f' a')) :
    Mirrors X R W (m >>= f) (m' >>= f') :=
  ⟨fun hc => (hm.alike hc).bind hf⟩

/-- What follows the same answer. -/
theorem Mirrors.bind_eq {m m' : ChannelM α} {f f' : α → ChannelM β} {W : β → β → Prop}
    (hm : Mirrors X R Eq m m') (hf : ∀ a, Mirrors X R W (f a) (f' a)) :
    Mirrors X R W (m >>= f) (m' >>= f') := by
  refine hm.bind fun a a' ha => ?_
  subst ha
  exact hf a

theorem mirrors_pure {a : α} {a' : α'} (h : V a a') : Mirrors X R V (pure a) (pure a') :=
  ⟨fun hc => ⟨h, hc⟩⟩

theorem mirrors_throw (e : Failure) :
    Mirrors X R V (throw e : ChannelM α) (throw e : ChannelM α') :=
  ⟨fun hc => .inr (.inr ⟨rfl, hc⟩)⟩

/-- What is read comes from related channels. -/
theorem mirrors_get_bind {f f' : Channel → ChannelM β} {W : β → β → Prop}
    (hf : ∀ c c', R c c' → Mirrors X R W (f c) (f' c')) :
    Mirrors X R W (get >>= f) (get >>= f') :=
  ⟨fun hc => (hf _ _ hc).alike hc⟩

theorem mirrors_modify {g g' : Channel → Channel} (h : ∀ c c', R c c' → R (g c) (g' c')) :
    Mirrors X R Eq (modify g) (modify g') :=
  ⟨fun hc => ⟨rfl, h _ _ hc⟩⟩

theorem mirrors_ofOption (o : Option α) : Mirrors X R Eq (ofOption o) (ofOption o) := by
  cases o with
  | none => exact mirrors_throw _
  | some a => exact mirrors_pure rfl

theorem mirrors_check (msg : Message) : Mirrors X R Eq (check msg) (check msg) := by
  refine ⟨fun hc => ?_⟩
  unfold check
  split
  · exact ⟨rfl, hc⟩
  · exact .inr (.inr ⟨rfl, hc⟩)

/-- Messages that can be sent may differ. -/
theorem mirrors_send {msg msg' : Message} (hm : msg.validate = .ok ())
    (hm' : msg'.validate = .ok ()) (h : ∀ c c', R c c' → R (c.emit msg) (c'.emit msg')) :
    Mirrors X R Eq (send msg) (send msg') := by
  refine Mirrors.bind_eq ⟨fun hc => ?_⟩ fun _ => mirrors_modify h
  rw [check_of_valid hm, check_of_valid hm']
  exact ⟨rfl, hc⟩

theorem Mirrors.map {g : α → β} {g' : α' → β'} (hm : Mirrors X R V m m')
    (hg : ∀ a a', V a a' → W (g a) (g' a')) : Mirrors X R W (g <$> m) (g' <$> m') := by
  refine ⟨fun {c c'} hc => ?_⟩
  have h := hm.alike hc
  simp only [Functor.map, EStateM.map]
  cases hr : m c <;> cases hr' : m' c' <;> rw [hr, hr'] at h
  · exact ⟨hg _ _ h.1, h.2⟩
  all_goals exact h

theorem mirrors_forM {f f' : α → ChannelM PUnit} (h : ∀ a, Mirrors X R Eq (f a) (f' a))
    (l : List α) : Mirrors X R Eq (l.forM f) (l.forM f') := by
  induction l with
  | nil => exact mirrors_pure rfl
  | cons a rest ih => exact (h a).bind_eq fun _ => ih

theorem mirrors_forM_map {f : α → ChannelM PUnit} {f' : α' → ChannelM PUnit} {g : α → α'}
    (h : ∀ a, Mirrors X R Eq (f a) (f' (g a))) (l : List α) :
    Mirrors X R Eq (l.forM f) ((l.map g).forM f') := by
  induction l with
  | nil => exact mirrors_pure rfl
  | cons a rest ih => exact (h a).bind_eq fun _ => ih

theorem mirrors_mapM_of_mem {f f' : α → ChannelM β} {l : List α}
    (h : ∀ a ∈ l, Mirrors X R Eq (f a) (f' a)) : Mirrors X R Eq (l.mapM f) (l.mapM f') := by
  induction l with
  | nil => exact mirrors_pure rfl
  | cons a rest ih =>
    obtain ⟨ha, hrest⟩ := List.forall_mem_cons.1 h
    rw [List.mapM_cons, List.mapM_cons]
    exact ha.bind_eq fun _ => (ih hrest).bind_eq fun _ => mirrors_pure rfl

end Rules

/-! ## What is written -/

/-- What has to be true of related channels so that they mirror releases and settings: they agree on
what these read, and stay related when both send the same message or remember the same setting. -/
structure Sending (R : Channel → Channel → Prop) : Prop where
  number : ∀ {c c' : Channel}, R c c' → c.number = c'.number
  slurred : ∀ {c c' : Channel}, R c c' → c.slurred = c'.slurred
  controllers : ∀ {c c' : Channel}, R c c' → c.controllers = c'.controllers
  emit : ∀ {c c' : Channel} m, R c c' → R (c.emit m) (c'.emit m)
  release : ∀ {c c' : Channel} key m, R c c' →
    R { c.emit m with releases := c.releases.setIfInBounds key c.emitHandle }
      { c'.emit m with releases := c'.releases.setIfInBounds key c'.emitHandle }
  note : ∀ {c c' : Channel} key state, R c c' →
    R { c with notes := c.notes.setIfInBounds key state }
      { c' with notes := c'.notes.setIfInBounds key state }
  dynamic : ∀ {c c' : Channel} dynamic, R c c' → R { c with dynamic } { c' with dynamic }
  controller : ∀ {c c' : Channel} controllers, R c c' →
    R { c with controllers } { c' with controllers }
  bend : ∀ {c c' : Channel} bend, R c c' → R { c with bend } { c' with bend }

namespace Sending

variable {X : Excuses} {R : Channel → Channel → Prop} (hR : Sending R)

include hR

theorem send (msg : Message) : Mirrors X R Eq (send msg) (send msg) :=
  (mirrors_check msg).bind_eq fun _ => mirrors_modify fun _ _ => hR.emit msg

theorem setNote (key : Nat) (state : NoteState) :
    Mirrors X R Eq (setNote key state) (setNote key state) :=
  mirrors_modify fun _ _ => hR.note key state

theorem noteOff (key velocity : Nat) : Mirrors X R Eq (noteOff key velocity)
    (noteOff key velocity) := by
  refine mirrors_get_bind fun c c' h => ?_
  rw [hR.number h, hR.slurred h]
  refine (mirrors_check _).bind_eq fun _ => ?_
  exact (mirrors_modify fun _ _ => hR.release key _).bind_eq fun _ => hR.setNote key _

theorem noteOn (key velocity : Nat) : Mirrors X R Eq (noteOn key velocity)
    (noteOn key velocity) := by
  refine mirrors_get_bind fun c c' h => ?_
  rw [hR.number h, hR.slurred h]
  exact (hR.send _).bind_eq fun _ => hR.setNote key _

theorem setDynamic (dynamic : Dynamic) : Mirrors X R Eq (setDynamic dynamic) (setDynamic dynamic) :=
  mirrors_modify fun _ _ => hR.dynamic dynamic

theorem setController (number value : Nat) :
    Mirrors X R Eq (setController number value) (setController number value) := by
  refine mirrors_get_bind fun c c' h => ?_
  rw [hR.number h]
  refine (hR.send _).bind_eq fun _ => mirrors_modify fun c₁ c₁' h₁ => ?_
  unfold Channel.controller
  rw [hR.controllers h₁]
  exact hR.controller _ h₁

theorem setBend (bend : Nat) : Mirrors X R Eq (setBend bend) (setBend bend) := by
  refine mirrors_get_bind fun c c' h => ?_
  rw [hR.number h]
  exact (hR.send _).bind_eq fun _ => mirrors_modify fun _ _ => hR.bend bend

/-- Channels that mirror strikes mirror every action. -/
theorem run (hstrike : ∀ key delta duration offVelocity, Mirrors X R Eq
      (strike key delta duration offVelocity) (strike key delta duration offVelocity))
    (a : Action) : Mirrors X R Eq (run a) (run a) := by
  cases a with
  | noteOff key velocity => exact hR.noteOff key velocity
  | play key delta duration offVelocity => exact hstrike key delta duration offVelocity
  | setDynamic dynamic => exact hR.setDynamic dynamic
  | turnKnob number value => exact hR.setController number value
  | pressPedal number => exact hR.setController number _
  | releasePedal number => exact hR.setController number _
  | bend value => exact hR.setBend value
  | resetBend => exact hR.setBend _

end Sending

/-! ## The clock -/

/-- What has to be true of related channels so that they are drained alike, the first to `target`
and the second to `target'`: the same bucket is due in both or in neither. -/
structure Lockstep (X : Excuses) (R : Channel → Channel → Prop) (target target' : Nat) :
    Prop where
  due : ∀ {c c' : Channel} {tick : Nat} {actions : List Action} {rest : Agenda Action}, R c c' →
    c.pending.popDue? target = some (tick, actions, rest) →
    ∃ tick' rest', c'.pending.popDue? target' = some (tick', actions, rest') ∧
      R { c with pending := rest, clock := max c.clock tick }
        { c' with pending := rest', clock := max c'.clock tick' }
  idle : ∀ {c c' : Channel}, R c c' → c.clock ≤ target → c.pending.popDue? target = none →
    c'.pending.popDue? target' = none ∧
      R { c with clock := target } { c' with clock := target' }
  run : ∀ a, Mirrors X R Eq (run a) (run a)

namespace Lockstep

variable {X : Excuses} {R : Channel → Channel → Prop} {target target' : Nat}
  (hR : Lockstep X R target target')

include hR

theorem runAll (as : List Action) : Mirrors X R Eq (runAll as) (runAll as) := by
  induction as with
  | nil => exact mirrors_pure rfl
  | cons a rest ih => exact (hR.run a).bind_eq fun _ => ih

theorem drain {c c' : Channel} (h : R c c') (hle : c.clock ≤ target) :
    Alike X R (fun t t' => t = target ∧ t' = target') (Channel.drain target c)
      (Channel.drain target' c') := by
  -- the induction is on the run of the first channel; the second takes the same turns
  fun_induction Channel.drain target c generalizing c' with
  | case1 c hpop =>
    obtain ⟨hpop', hrest⟩ := hR.idle h hle hpop
    rw [Channel.drain_of_not_due hpop']
    exact ⟨⟨rfl, rfl⟩, hrest⟩
  | case2 c tick actions rest hpop u c₁ hrun ih =>
    obtain ⟨tick', rest', hpop', hdue⟩ := hR.due h hpop
    have hstep := (hR.runAll actions).alike hdue
    rw [Channel.drain_of_due hpop']
    cases hrun' : ChannelM.runAll actions
        { c' with pending := rest', clock := max c'.clock tick' } with
    | ok u' c₁' =>
      rw [hrun, hrun'] at hstep
      refine ih hstep.2 ?_
      rw [(fixes_clock_runAll actions).of_ok hrun]
      exact Nat.max_le.2 ⟨hle, Agenda.le_of_popDue? hpop⟩
    | error e' c₁' =>
      rw [hrun, hrun'] at hstep
      exact Alike.of_second hstep _
  | case3 c tick actions rest hpop e c₁ hrun =>
    obtain ⟨tick', rest', hpop', hdue⟩ := hR.due h hpop
    have hstep := (hR.runAll actions).alike hdue
    rw [Channel.drain_of_due hpop']
    cases hrun' : ChannelM.runAll actions
        { c' with pending := rest', clock := max c'.clock tick' } with
    | ok u' c₁' =>
      rw [hrun, hrun'] at hstep
      exact Alike.of_first hstep _
    | error e' c₁' =>
      rw [hrun, hrun'] at hstep
      exact hstep

end Lockstep

/-- Channels that show the same tick and are drained alike are advanced alike. -/
theorem mirrors_advance {X : Excuses} {R : Channel → Channel → Prop}
    (hclock : ∀ {c c' : Channel}, R c c' → c.clock = c'.clock)
    (hstep : ∀ target, Lockstep X R target target) (ticks : Nat) :
    Mirrors X R Eq (advance ticks) (advance ticks) := by
  refine ⟨fun {c c'} h => ?_⟩
  rw [Channel.advance_eq_bind, Channel.advance_eq_bind, hclock h]
  cases hn : Bounded.nat? 64 (c'.clock + ticks) with
  | none => exact .inr (.inr ⟨rfl, h⟩)
  | some target =>
    obtain ⟨-, rfl⟩ := Bounded.nat?_eq_some_iff.1 hn
    have hle : c.clock ≤ c'.clock + ticks := by
      rw [hclock h]
      exact Nat.le_add_right ..
    exact ((hstep _).drain h hle).weaken fun t t' ht => ht.1.trans ht.2.symm

theorem mirrors_flush {X : Excuses} {R : Channel → Channel → Prop}
    (hpending : ∀ {c c' : Channel}, R c c' → c.pending.lastDue? = c'.pending.lastDue?)
    (hclock : ∀ {c c' : Channel}, R c c' → c.clock = c'.clock)
    (hleap : ∀ tick, Mirrors X R Eq (leapTo tick) (leapTo tick)) : Mirrors X R Eq flush flush := by
  refine ⟨fun {c c'} h => ?_⟩
  show Alike X R Eq (Channel.flush c) (Channel.flush c')
  fun_induction Channel.flush c generalizing c' with
  | case1 c hlast =>
    have hlast' := (hpending h).symm.trans hlast
    rw [Channel.flush_of_idle hlast']
    exact ⟨hclock h, h⟩
  | case2 c last hlast t c₁ hrun ih =>
    have hlast' := (hpending h).symm.trans hlast
    have hstep := (hleap last).alike h
    rw [Channel.flush_of_lastDue hlast']
    cases hrun' : leapTo last c' with
    | ok t' c₁' =>
      rw [hrun, hrun'] at hstep
      exact ih hstep.2
    | error e' c₁' =>
      rw [hrun, hrun'] at hstep
      exact Alike.of_second hstep _
  | case3 c last hlast e c₁ hrun =>
    have hlast' := (hpending h).symm.trans hlast
    have hstep := (hleap last).alike h
    rw [Channel.flush_of_lastDue hlast']
    cases hrun' : leapTo last c' with
    | ok t' c₁' =>
      rw [hrun, hrun'] at hstep
      exact Alike.of_first hstep _
    | error e' c₁' =>
      rw [hrun, hrun'] at hstep
      exact hstep

/-! ## What is performed -/

/-- What has to be true of related channels so that they mirror sounds, the second those of the
first moved by octaves: they agree on what sounds read, and mirror what sounds are put together
from. -/
structure Resounding (X : Excuses) (R : Channel → Channel → Prop) (octaves : Int) : Prop where
  timing : ∀ {c c' : Channel}, R c c' → c.timing = c'.timing
  soundingKey : ∀ {c c' : Channel}, R c c' → ∀ p,
    c.soundingKey p = c'.soundingKey (p.shiftOctave octaves)
  knob : ∀ {c c' : Channel} (a : Articulation), R c c' →
    ∀ knob ∈ a.knobs, c.controllerValue knob.1 = c'.controllerValue knob.1
  strike : ∀ key delta duration offVelocity,
    Mirrors X R Eq (strike key delta duration offVelocity) (strike key delta duration offVelocity)
  later : ∀ delta action, Mirrors X R Eq (later delta action) (later delta action)
  setController : ∀ number value,
    Mirrors X R Eq (setController number value) (setController number value)

namespace Resounding

variable {X : Excuses} {R : Channel → Channel → Prop} {octaves : Int}
  (hR : Resounding X R octaves)

include hR

theorem after (duration : Nat) (action : Action) :
    Mirrors X R Eq (after duration action) (after duration action) :=
  hR.later _ action

theorem playNote (p : Pitch) (delta : Int) (duration offVelocity : Nat) :
    Mirrors X R Eq (playNote p delta duration offVelocity)
      (playNote (p.shiftOctave octaves) delta duration offVelocity) := by
  refine mirrors_get_bind fun c c' h => ?_
  rw [hR.soundingKey h]
  cases c'.soundingKey (p.shiftOctave octaves) with
  | some key => exact hR.strike key delta duration offVelocity
  | none => exact mirrors_pure rfl

theorem glissando (p : Pitch) (duration offVelocity : Nat) :
    Mirrors X R Eq (glissando p duration offVelocity)
      (glissando (p.shiftOctave octaves) duration offVelocity) := by
  refine (hR.playNote p 0 duration offVelocity).bind_eq fun _ => ?_
  refine (mirrors_forM (fun step => ?_) _).bind_eq fun _ => hR.after duration .resetBend
  exact (mirrors_ofOption _).bind_eq fun _ => hR.after _ _

theorem rollTone (size duration offVelocity i : Nat) (p : Pitch) :
    Mirrors X R Eq (rollTone size duration offVelocity (p, i))
      (rollTone size duration offVelocity (p.shiftOctave octaves, i)) := by
  refine (mirrors_ofOption _).bind_eq fun product => ?_
  dsimp only
  split
  · exact hR.playNote _ _ _ _
  · refine mirrors_get_bind fun c c' h => ?_
    rw [hR.soundingKey h]
    cases c'.soundingKey (p.shiftOctave octaves) with
    | some key => exact hR.after _ _
    | none => exact mirrors_pure rfl

theorem roll (chord : Chord) (duration offVelocity : Nat) :
    Mirrors X R Eq (roll chord duration offVelocity)
      (roll (chord.shiftOctave octaves) duration offVelocity) := by
  rw [roll_eq, roll_eq, chord.size_shiftOctave]
  unfold Chord.shiftOctave
  rw [List.zipIdx_map]
  refine mirrors_forM_map (fun tone => ?_) chord.tones.zipIdx
  exact hR.rollTone _ _ _ tone.2 tone.1

theorem playNotes (chord : Chord) (delta : Int) (duration offVelocity : Nat) :
    Mirrors X R Eq (chord.tones.forM fun p => ChannelM.playNote p delta duration offVelocity)
      ((chord.shiftOctave octaves).tones.forM fun p =>
        ChannelM.playNote p delta duration offVelocity) := by
  refine mirrors_forM_map (fun p => ?_) chord.tones
  exact hR.playNote p delta duration offVelocity

theorem strikePlayable (p : Playable) (a : Articulation) (duration : Nat) :
    Mirrors X R Eq (strikePlayable p a duration)
      (strikePlayable (p.shiftOctave octaves) a duration) := by
  cases p with
  | pitch p =>
    cases a with
    | gliscando => exact hR.glissando p duration _
    | _ => exact hR.playNote p _ duration _
  | chord chord =>
    cases a with
    | gliscando => exact hR.roll chord duration _
    | _ => exact hR.playNotes chord _ duration _

/-- The knobs of an articulation are turned and found alike. -/
theorem turnKnobs (a : Articulation) :
    Mirrors X R Eq (turnKnobs a.knobs) (turnKnobs a.knobs) := by
  refine mirrors_mapM_of_mem fun knob hknob => mirrors_get_bind fun c c' h => ?_
  dsimp only
  rw [hR.knob a h knob hknob]
  exact (hR.setController _ _).bind_eq fun _ => mirrors_pure rfl

theorem playSound (s : Sound) (beat : Beat) :
    Mirrors X R Eq (playSound s beat) (playSound (s.shiftOctave octaves) beat) := by
  unfold ChannelM.playSound
  rw [show (s.shiftOctave octaves).playable.isRest = s.playable.isRest from
    s.playable.isRest_shiftOctave octaves]
  split
  · exact mirrors_pure rfl
  · refine mirrors_get_bind fun c c' h => ?_
    rw [hR.timing h]
    refine (hR.turnKnobs _).bind_eq fun restores => ?_
    exact (hR.strikePlayable _ _ _).bind_eq fun _ => mirrors_forM (fun _ => hR.after _ _) _

end Resounding

/-- What has to be true of related channels so that they mirror what sounds, phrases and ramps do,
the second with its sounds moved by octaves: they agree on what these read, and mirror what these
are put together from. -/
structure Mirroring (X : Excuses) (R : Channel → Channel → Prop) (octaves : Int) : Prop where
  clock : ∀ {c c' : Channel}, R c c' → c.clock = c'.clock
  lastDue : ∀ {c c' : Channel}, R c c' → c.pending.lastDue? = c'.pending.lastDue?
  timing : ∀ {c c' : Channel}, R c c' → c.timing = c'.timing
  soundingKey : ∀ {c c' : Channel}, R c c' → ∀ p,
    c.soundingKey p = c'.soundingKey (p.shiftOctave octaves)
  controllerValue : ∀ {c c' : Channel}, R c c' → c.controllerValue = c'.controllerValue
  strike : ∀ key delta duration offVelocity,
    Mirrors X R Eq (strike key delta duration offVelocity) (strike key delta duration offVelocity)
  later : ∀ delta action, Mirrors X R Eq (later delta action) (later delta action)
  advance : ∀ ticks, Mirrors X R Eq (advance ticks) (advance ticks)
  setDynamic : ∀ dynamic, Mirrors X R Eq (setDynamic dynamic) (setDynamic dynamic)
  setController : ∀ number value,
    Mirrors X R Eq (setController number value) (setController number value)
  setSlurred : ∀ slurred, Mirrors X R Eq (setSlurred slurred) (setSlurred slurred)

namespace Mirroring

variable {X : Excuses} {R : Channel → Channel → Prop} {octaves : Int}
  (hR : Mirroring X R octaves)

include hR

theorem resounding : Resounding X R octaves where
  timing := hR.timing
  soundingKey := hR.soundingKey
  knob _ h knob _ := congrFun (hR.controllerValue h) knob.1
  strike := hR.strike
  later := hR.later
  setController := hR.setController

theorem after (duration : Nat) (action : Action) :
    Mirrors X R Eq (after duration action) (after duration action) :=
  hR.later _ action

theorem advanceBeat (beat : Beat) : Mirrors X R Eq (advanceBeat beat) (advanceBeat beat) := by
  refine mirrors_get_bind fun c c' h => ?_
  rw [hR.timing h]
  exact hR.advance _

theorem leapTo (tick : Nat) : Mirrors X R Eq (leapTo tick) (leapTo tick) := by
  refine mirrors_get_bind fun c c' h => ?_
  rw [hR.clock h]
  exact hR.advance _

theorem follow (directive : Directive) : Mirrors X R Eq (follow directive) (follow directive) := by
  refine mirrors_get_bind fun c c' h => ?_
  rw [hR.clock h, hR.timing h]
  exact (mirrors_ofOption _).bind_eq fun _ => hR.leapTo _

theorem flush : Mirrors X R Eq flush flush :=
  mirrors_flush hR.lastDue hR.clock hR.leapTo

theorem playSound (s : Sound) (beat : Beat) :
    Mirrors X R Eq (playSound s beat) (playSound (s.shiftOctave octaves) beat) :=
  hR.resounding.playSound s beat

theorem changeSlur (slurring slurred : Bool) :
    Mirrors X R Eq (changeSlur slurring slurred) (changeSlur slurring slurred) := by
  cases slurred <;> cases slurring
  · exact mirrors_pure rfl
  · exact (hR.setSlurred _).bind_eq fun _ => hR.setController _ _
  · exact (hR.setController _ _).bind_eq fun _ => hR.setSlurred _
  · exact mirrors_pure rfl

theorem playElements (slurring : Bool) (l : List (Sound × Beat)) :
    Mirrors X R Eq (playElements slurring l)
      (playElements slurring (l.map (shiftElement octaves))) := by
  induction l generalizing slurring with
  | nil => exact mirrors_pure rfl
  | cons element rest ih =>
    refine (hR.changeSlur _ _).bind_eq fun _ => (hR.playSound _ _).bind_eq fun _ => ?_
    exact (hR.advanceBeat _).bind_eq fun _ => ih _

/-- The phrase of the second channel has the elements of the first moved by octaves. -/
theorem playPhrase {p p' : Phrase} (hsize : p'.size = p.size)
    (helements : p'.elements = p.elements.map (shiftElement octaves)) :
    Mirrors X R Eq (playPhrase p) (playPhrase p') := by
  unfold ChannelM.playPhrase
  rw [hsize, helements]
  split
  · exact mirrors_pure rfl
  · refine mirrors_get_bind fun c c' h => ?_
    rw [hR.clock h]
    refine (hR.playElements _ _).bind_eq fun _ => (hR.setSlurred _).bind_eq fun _ => ?_
    refine (hR.setController _ _).bind_eq fun _ => mirrors_get_bind fun c₁ c₁' h₁ => ?_
    rw [hR.clock h₁]
    exact mirrors_pure rfl

theorem playRamp (r : Ramp) : Mirrors X R Eq (playRamp r) (playRamp r) := by
  refine mirrors_get_bind fun c c' h => ?_
  rw [hR.timing h]
  refine (hR.setDynamic _).bind_eq fun _ => mirrors_forM (fun step => ?_) _
  unfold promiseDynamic
  split
  · exact hR.after _ _
  · exact mirrors_throw _

end Mirroring

end MidiScore.ChannelM
