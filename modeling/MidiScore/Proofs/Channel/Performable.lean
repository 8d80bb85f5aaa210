import MidiScore.Channel.Operation

/-!
# What is true of all that is performed

Operations are put together from strikes, promises, settings and advances of the clock. A property
of operations that passes from the parts of an operation to the whole (`Compositional`) and is true
of these is true of sounds and phrases (`Soundable`) and of everything that a channel performs
(`Tunable`, `Operable`). Sounds set no controllers but the knobs of their articulations, so that a
property may leave other controllers out (`SoundableOn`). It is true of settings if it is true of
the messages that they send and of what they remember (`Settable`), so that it need not be proved of
each of them (`Strikable`, `Performable`).
-/

namespace MidiScore

/-- Whether an operation may turn slurring on. -/
def Operation.slurs : Operation → Bool
  | setSlurred slurred => slurred
  | playPhrase phrase => phrase.elements.any (·.2.slurred)
  | _ => false

/-- The controller that an action sets, if it sets one. -/
def Action.controller? : Action → Option Nat
  | turnKnob number _ | pressPedal number | releasePedal number => some number
  | _ => none

end MidiScore

namespace MidiScore.ChannelM

/-- A property of operations that passes from the parts of an operation to the whole. -/
structure Compositional (K : ∀ {α : Type}, ChannelM α → Prop) : Prop where
  pure : ∀ {α : Type} (a : α), K (Pure.pure a : ChannelM α)
  throw : ∀ {α : Type} (e : Failure), K (MonadExcept.throw e : ChannelM α)
  get : K (MonadState.get : ChannelM Channel)
  bind : ∀ {α β : Type} {m : ChannelM α} {f : α → ChannelM β},
    K m → (∀ a, K (f a)) → K (m >>= f)
  flush_of_leapTo : (∀ tick, K (leapTo tick)) → K flush

namespace Compositional

variable {K : ∀ {α : Type}, ChannelM α → Prop} (hK : Compositional K)

include hK

theorem ofOption {α : Type} (o : Option α) : K (ofOption o) := by
  cases o
  · exact hK.throw _
  · exact hK.pure _

theorem map {α β : Type} {f : α → β} {m : ChannelM α} (hm : K m) : K (f <$> m) := by
  have h : f <$> m = m >>= fun a => Pure.pure (f a) := by
    funext c
    cases hc : m c with
    | ok a c₁ =>
      simp only [Functor.map, EStateM.map, Bind.bind, EStateM.bind, hc]
      rfl
    | error e c₁ => simp only [Functor.map, EStateM.map, Bind.bind, EStateM.bind, hc]
  rw [h]
  exact hK.bind hm fun _ => hK.pure _

theorem forM_of_mem {α : Type} {f : α → ChannelM PUnit} {l : List α} (h : ∀ a ∈ l, K (f a)) :
    K (l.forM f) := by
  induction l with
  | nil => exact hK.pure _
  | cons a rest ih =>
    obtain ⟨ha, hrest⟩ := List.forall_mem_cons.1 h
    exact hK.bind ha fun _ => ih hrest

theorem forM {α : Type} {f : α → ChannelM PUnit} (h : ∀ a, K (f a)) (l : List α) :
    K (l.forM f) :=
  hK.forM_of_mem fun a _ => h a

theorem mapM {α β : Type} {f : α → ChannelM β} {l : List α} (h : ∀ a ∈ l, K (f a)) :
    K (l.mapM f) := by
  induction l with
  | nil => exact hK.pure _
  | cons a rest ih =>
    obtain ⟨ha, hrest⟩ := List.forall_mem_cons.1 h
    rw [List.mapM_cons]
    exact hK.bind ha fun _ => hK.bind (ih hrest) fun _ => hK.pure _

/-- What is done only under a condition. -/
theorem ite_bind {β : Type} {b : Prop} [Decidable b] {m : ChannelM PUnit} {k : PUnit → ChannelM β}
    (hm : K m) (hk : ∀ u, K (k u)) : K (if b then m >>= k else k ⟨⟩) := by
  by_cases hb : b
  · rw [if_pos hb]
    exact hK.bind hm hk
  · rw [if_neg hb]
    exact hk _

theorem acknowledge {m : ChannelM Unit} (h : K m) : K (acknowledge m) :=
  hK.bind h fun _ => hK.pure _

theorem turnKnobs {knobs : List (Nat × Nat)}
    (h : ∀ knob ∈ knobs, ∀ value, K (setController knob.1 value)) : K (turnKnobs knobs) :=
  hK.mapM fun knob hknob => hK.bind hK.get fun _ => hK.bind (h knob hknob _) fun _ => hK.pure _

theorem changeSlur {slurring slurred : Bool} (h : ∀ number value, K (setController number value))
    (hs : K (setSlurred slurred)) : K (changeSlur slurring slurred) := by
  cases slurred <;> cases slurring
  · exact hK.pure _
  · exact hK.bind hs fun _ => h _ _
  · exact hK.bind (h _ _) fun _ => hs
  · exact hK.pure _

end Compositional

/-- What has to be true of a property so that it is true of sounds that set no controllers but those
with `N`. -/
structure SoundableOn (N : Nat → Prop) (K : ∀ {α : Type}, ChannelM α → Prop) : Prop
    extends Compositional K where
  strike : ∀ key delta duration offVelocity, K (strike key delta duration offVelocity)
  later : ∀ delta {action : Action}, (∀ number ∈ action.controller?, N number) →
    K (later delta action)
  setController : ∀ {number} value, N number → K (setController number value)

namespace SoundableOn

variable {N : Nat → Prop} {K : ∀ {α : Type}, ChannelM α → Prop} (hK : SoundableOn N K)

include hK

theorem after (duration : Nat) {action : Action} (h : ∀ number ∈ action.controller?, N number) :
    K (after duration action) :=
  hK.later _ h

theorem playNote (p : Pitch) (delta : Int) (duration offVelocity : Nat) :
    K (playNote p delta duration offVelocity) := by
  refine hK.bind hK.get fun c => ?_
  split
  · exact hK.strike _ _ _ _
  · exact hK.pure _

theorem glissando (p : Pitch) (duration offVelocity : Nat) :
    K (glissando p duration offVelocity) := by
  refine hK.bind (hK.playNote p 0 duration offVelocity) fun _ => ?_
  refine hK.bind (hK.forM (fun step => ?_) _) fun _ => hK.after _ nofun
  exact hK.bind (hK.ofOption _) fun _ => hK.after _ nofun

theorem roll (chord : Chord) (duration offVelocity : Nat) :
    K (roll chord duration offVelocity) := by
  refine hK.forM (fun tone => hK.bind (hK.ofOption _) fun product => ?_) _
  dsimp only
  split
  · exact hK.playNote _ _ _ _
  · refine hK.bind hK.get fun c => ?_
    split
    · exact hK.after _ nofun
    · exact hK.pure _

theorem strikePlayable (p : Playable) (a : Articulation) (duration : Nat) :
    K (strikePlayable p a duration) := by
  unfold ChannelM.strikePlayable
  split
  · exact hK.glissando _ _ _
  · exact hK.roll _ _ _
  · exact hK.playNote _ _ _ _
  · exact hK.forM (fun _ => hK.playNote _ _ _ _) _

/-- Knobs are turned back by actions that set the same controllers. -/
theorem promiseKnobs (duration : Nat) {knobs : List (Nat × Nat)} (h : ∀ knob ∈ knobs, N knob.1) :
    K (knobs.forM fun (number, value) => ChannelM.after duration (.turnKnob number value)) := by
  refine hK.forM_of_mem fun knob hknob => hK.after duration ?_
  rintro _ ⟨⟩
  exact h knob hknob

end SoundableOn

/-- What has to be true of a property so that it is true of sounds, phrases and ramps. -/
structure Soundable (K : ∀ {α : Type}, ChannelM α → Prop) : Prop extends Compositional K where
  strike : ∀ key delta duration offVelocity, K (strike key delta duration offVelocity)
  later : ∀ delta action, K (later delta action)
  advance : ∀ ticks, K (advance ticks)
  setDynamic : ∀ dynamic, K (setDynamic dynamic)
  setController : ∀ number value, K (setController number value)

namespace Soundable

variable {K : ∀ {α : Type}, ChannelM α → Prop} (hK : Soundable K)

include hK

theorem after (duration : Nat) (action : Action) : K (after duration action) :=
  hK.later _ action

theorem advanceBeat (beat : Beat) : K (advanceBeat beat) :=
  hK.bind hK.get fun _ => hK.advance _

theorem leapTo (tick : Nat) : K (leapTo tick) :=
  hK.bind hK.get fun _ => hK.advance _

theorem follow (directive : Directive) : K (follow directive) :=
  hK.bind hK.get fun _ => hK.bind (hK.ofOption _) fun _ => hK.leapTo _

theorem flush : K flush :=
  hK.flush_of_leapTo hK.leapTo

/-- Where all controllers may be set. -/
theorem on : SoundableOn (fun _ => True) K :=
  ⟨hK.toCompositional, hK.strike, fun delta _ _ => hK.later delta _,
    fun value _ => hK.setController _ value⟩

theorem playNote (p : Pitch) (delta : Int) (duration offVelocity : Nat) :
    K (playNote p delta duration offVelocity) :=
  hK.on.playNote p delta duration offVelocity

theorem playSound (s : Sound) (beat : Beat) : K (playSound s beat) := by
  unfold ChannelM.playSound
  split
  · exact hK.pure _
  · refine hK.bind hK.get fun c => hK.bind (hK.turnKnobs fun _ _ => hK.setController _) fun _ => ?_
    exact hK.bind (hK.on.strikePlayable _ _ _) fun _ => hK.forM (fun _ => hK.after _ _) _

theorem playElements (slurring : Bool) {l : List (Sound × Beat)}
    (h : ∀ element ∈ l, K (ChannelM.setSlurred element.2.slurred)) :
    K (playElements slurring l) := by
  induction l generalizing slurring with
  | nil => exact hK.pure _
  | cons element rest ih =>
    obtain ⟨helement, hrest⟩ := List.forall_mem_cons.1 h
    refine hK.bind (hK.changeSlur hK.setController helement) fun _ => ?_
    refine hK.bind (hK.playSound _ _) fun _ => ?_
    exact hK.bind (hK.advanceBeat _) fun _ => ih _ hrest

/-- A phrase slurs only where one of its beats is slurred. -/
theorem playPhrase (p : Phrase) (hoff : K (ChannelM.setSlurred false))
    (hon : (∃ element ∈ p.elements, element.2.slurred) → K (ChannelM.setSlurred true)) :
    K (playPhrase p) := by
  have hslur : ∀ element ∈ p.elements, K (ChannelM.setSlurred element.2.slurred) := by
    intro element hmem
    cases hs : element.2.slurred with
    | false => exact hoff
    | true => exact hon ⟨element, hmem, hs⟩
  unfold ChannelM.playPhrase
  split
  · exact hK.pure _
  · refine hK.bind hK.get fun _ => hK.bind (hK.playElements _ hslur) fun _ => ?_
    refine hK.bind hoff fun _ => hK.bind (hK.setController _ _) fun _ => ?_
    exact hK.bind hK.get fun _ => hK.pure _

theorem playRamp (r : Ramp) : K (playRamp r) := by
  refine hK.bind hK.get fun c => hK.bind (hK.setDynamic _) fun _ => hK.forM (fun step => ?_) _
  unfold promiseDynamic
  split
  · exact hK.after _ _
  · exact hK.throw _

end Soundable

/-- What has to be true of a property so that it is true of every operation that neither slurs nor
mutes the channel nor replaces its track. -/
structure Tunable (K : ∀ {α : Type}, ChannelM α → Prop) : Prop extends Soundable K where
  setOctave : ∀ octave, K (setOctave octave)
  setTransposition : ∀ semitones, K (setTransposition semitones)
  setInstrument : ∀ program, K (setInstrument program)
  setBank : ∀ bank, K (setBank bank)
  setBend : ∀ bend, K (setBend bend)

/-- The property is true of an operation if it is true of slurring as far as the operation slurs,
and of muting and replacing if that is what the operation does. -/
theorem Tunable.perform {K : ∀ {α : Type}, ChannelM α → Prop} (hK : Tunable K) (op : Operation)
    (hslur : ∀ slurred : Bool, (slurred → op.slurs) → K (setSlurred slurred))
    (hmute : ∀ muted, op = .setMuted muted → K (setMuted muted))
    (hreplace : ∀ t, op = .replaceTrack t → K (replaceTrack t)) : K op.perform := by
  cases op with
  | advance ticks => exact hK.map (hK.advance ticks)
  | advanceBeat beat => exact hK.map (hK.advanceBeat beat)
  | leapTo tick => exact hK.map (hK.leapTo tick)
  | later delta action => exact hK.acknowledge (hK.later delta action)
  | laterBeat beat action => exact hK.acknowledge (hK.bind hK.get fun _ => hK.after _ _)
  | flush => exact hK.map hK.flush
  | follow directive => exact hK.map (hK.follow directive)
  | playNote p delta duration off => exact hK.acknowledge (hK.playNote p delta duration off)
  | setDynamic dynamic => exact hK.acknowledge (hK.setDynamic dynamic)
  | setOctave octaves => exact hK.acknowledge (hK.setOctave octaves)
  | setTransposition semitones => exact hK.acknowledge (hK.setTransposition semitones)
  | setSlurred slurred => exact hK.acknowledge (hslur slurred id)
  | setInstrument program => exact hK.acknowledge (hK.setInstrument program)
  | setBank bank => exact hK.acknowledge (hK.setBank bank)
  | setMuted muted => exact hK.acknowledge (hmute muted rfl)
  | setBend value => exact hK.acknowledge (hK.setBend value)
  | resetBend => exact hK.acknowledge (hK.setBend _)
  | setController number value => exact hK.acknowledge (hK.setController number value)
  | pressPedal number => exact hK.acknowledge (hK.setController number _)
  | releasePedal number => exact hK.acknowledge (hK.setController number _)
  | replaceTrack track => exact hK.map (hreplace track rfl)
  | playPhrase phrase =>
    refine hK.map (hK.playPhrase phrase (hslur false nofun) fun hslurred => hslur true fun _ => ?_)
    exact List.any_eq_true.2 hslurred
  | playSound sound beat => exact hK.acknowledge (hK.playSound sound beat)
  | playRamp ramp => exact hK.acknowledge (hK.playRamp ramp)

/-- What has to be true of a property so that it is true of every operation but a replacement, if it
is not true of all that is sent and remembered. -/
structure Operable (K : ∀ {α : Type}, ChannelM α → Prop) : Prop extends Soundable K where
  setOctave : ∀ octave, K (setOctave octave)
  setTransposition : ∀ semitones, K (setTransposition semitones)
  setInstrument : ∀ program, K (setInstrument program)
  setBank : ∀ bank, K (setBank bank)
  setBend : ∀ bend, K (setBend bend)
  setSlurred : ∀ slurred, K (setSlurred slurred)
  setMuted : ∀ muted, K (setMuted muted)

/-- The property is true of every operation but a replacement, and of a replacement if it is true of
that. -/
theorem Operable.perform {K : ∀ {α : Type}, ChannelM α → Prop} (hK : Operable K)
    (op : Operation) (hr : ∀ t, op = .replaceTrack t → K (replaceTrack t)) :
    K op.perform := by
  have htunable : Tunable K :=
    ⟨hK.toSoundable, hK.setOctave, hK.setTransposition, hK.setInstrument, hK.setBank, hK.setBend⟩
  exact htunable.perform op (fun slurred _ => hK.setSlurred slurred)
    (fun muted _ => hK.setMuted muted) hr

/-- A change to what a channel remembers of its settings. -/
structure Adjusts (f : Channel → Channel) : Prop where
  track : ∀ c, (f c).track = c.track
  notes : ∀ c, (f c).notes = c.notes
  releases : ∀ c, (f c).releases = c.releases
  pending : ∀ c, (f c).pending = c.pending
  clock : ∀ c, (f c).clock = c.clock
  muted : ∀ c, (f c).muted = c.muted
  slurred : ∀ c, (f c).slurred = c.slurred

/-- A property of operations that is true of messages other than notes and of changes to a
setting. -/
structure Settable (K : ∀ {α : Type}, ChannelM α → Prop) : Prop extends Compositional K where
  check : ∀ m, K (check m)
  send : ∀ m, m.isNoteOn = false → m.isNoteOff = false → K (send m)
  adjust : ∀ f, Adjusts f → K (modify f)

namespace Settable

variable {K : ∀ {α : Type}, ChannelM α → Prop} (hK : Settable K)

include hK

theorem setDynamic (dynamic : Dynamic) : K (setDynamic dynamic) :=
  hK.adjust _ (by constructor <;> exact fun _ => rfl)

theorem setOctave (octave : Int) : K (setOctave octave) :=
  hK.adjust _ (by constructor <;> exact fun _ => rfl)

theorem setTransposition (semitones : Int) : K (setTransposition semitones) :=
  hK.adjust _ (by constructor <;> exact fun _ => rfl)

theorem setBend (value : Nat) : K (setBend value) :=
  hK.bind hK.get fun _ => hK.bind (hK.send _ rfl rfl) fun _ =>
    hK.adjust _ (by constructor <;> exact fun _ => rfl)

theorem setController (number value : Nat) : K (setController number value) :=
  hK.bind hK.get fun _ => hK.bind (hK.send _ rfl rfl) fun _ =>
    hK.adjust _ (by constructor <;> exact fun _ => rfl)

theorem sendBank (bank : Nat) : K (sendBank bank) :=
  hK.bind hK.get fun _ => hK.bind (hK.check _) fun _ => hK.bind (hK.check _) fun _ =>
    hK.bind (hK.send _ rfl rfl) fun _ => hK.send _ rfl rfl

theorem setInstrument (program : Nat) : K (setInstrument program) := by
  refine hK.bind hK.get fun c => hK.bind (hK.check _) fun _ => ?_
  have hsend : K (do
      ChannelM.send (.programChange c.number program)
      modify fun c => { c with instrument := some program }) :=
    hK.bind (hK.send _ rfl rfl) fun _ => hK.adjust _ (by constructor <;> exact fun _ => rfl)
  split
  · exact hK.bind (hK.sendBank _) fun _ => hsend
  · exact hsend

theorem setBank (bank : Nat) : K (setBank bank) := by
  refine hK.bind hK.get fun c => hK.bind (hK.check _) fun _ => hK.bind ?_ fun _ =>
    hK.setInstrument _
  exact hK.adjust (fun c => { c with bank := some bank }) (by constructor <;> exact fun _ => rfl)

end Settable

/-- What has to be true of a property so that it is true of everything but slurring and muting. -/
structure Strikable (K : ∀ {α : Type}, ChannelM α → Prop) : Prop extends Settable K where
  strike : ∀ key delta duration offVelocity, K (strike key delta duration offVelocity)
  later : ∀ delta action, K (later delta action)
  advance : ∀ ticks, K (advance ticks)

theorem Strikable.soundable {K : ∀ {α : Type}, ChannelM α → Prop} (hK : Strikable K) :
    Soundable K where
  toCompositional := hK.toCompositional
  strike := hK.strike
  later := hK.later
  advance := hK.advance
  setDynamic := hK.setDynamic
  setController := hK.setController

/-- What has to be true of a property so that it is true of every operation but a replacement. -/
structure Performable (K : ∀ {α : Type}, ChannelM α → Prop) : Prop extends Strikable K where
  setSlurred : ∀ slurred, K (setSlurred slurred)
  setMuted : ∀ muted, K (setMuted muted)

theorem Performable.operable {K : ∀ {α : Type}, ChannelM α → Prop} (hK : Performable K) :
    Operable K where
  toSoundable := hK.soundable
  setOctave := hK.setOctave
  setTransposition := hK.setTransposition
  setInstrument := hK.setInstrument
  setBank := hK.setBank
  setBend := hK.setBend
  setSlurred := hK.setSlurred
  setMuted := hK.setMuted

end MidiScore.ChannelM
