import MidiScore.Channel.Settings
import MidiScore.Proofs.Channel.Mirrors

/-!
# The octave of a channel and the octave that is written

A channel that moves pitches by octaves finds the keys when it strikes, and a melody that is moved
has them before it is played. The two channels send, promise and remember the same, and so a phrase
that is played once through does the same on both (`playPhrase_of_setOctave`).
-/

namespace MidiScore

namespace Channel

/-- A channel that moves pitches by octaves and one that differs from it only in that it does not.
Neither is for percussion. -/
structure Raised (octaves : Int) (c c' : Channel) : Prop where
  melodic : c'.percussion = false
  unmoved : c'.octave = 0
  same : c = { c' with octave := octaves }

namespace Raised

variable {octaves : Int} {c c' : Channel} (h : Raised octaves c c')

include h

/-- What does not read the octave is the same on both channels. -/
theorem common {α : Type} (f : Channel → α) (hf : ∀ c octave, f { c with octave } = f c) :
    f c = f c' := by
  rw [h.same, hf]

/-- What does not touch the octave and the percussion is done to both channels. -/
theorem adjust {f : Channel → Channel}
    (hf : ∀ c octave percussion,
      f { c with octave, percussion } = { f c with octave, percussion }) :
    Raised octaves (f c) (f c') := by
  have hkept : f c' = { f c' with octave := 0, percussion := false } := by
    rw [← h.unmoved, ← h.melodic]
    exact hf c' c'.octave c'.percussion
  refine ⟨by rw [hkept], by rw [hkept], ?_⟩
  rw [h.same]
  refine (hf c' octaves c'.percussion).trans ?_
  rw [h.melodic, hkept]

theorem soundingKey_eq (p : Pitch) : c.soundingKey p = c'.soundingKey (p.shiftOctave octaves) := by
  have hmelodic : ¬ c'.percussion := by simp [h.melodic]
  rw [h.same]
  unfold soundingKey
  rw [if_neg hmelodic, if_neg hmelodic, h.unmoved, Pitch.shiftOctave_zero]

end Raised

variable {octaves : Int}

theorem sending_raised : ChannelM.Sending (Raised octaves) where
  number h := h.common number fun _ _ => rfl
  slurred h := h.common slurred fun _ _ => rfl
  controllers h := h.common controllers fun _ _ => rfl
  emit m h := h.adjust (f := (·.emit m)) fun c _ _ => by
    cases hm : c.muted <;> simp [emit, write, hm]
  release key m h := h.adjust
    (f := fun c => { c.emit m with releases := c.releases.setIfInBounds key c.emitHandle })
    fun c _ _ => by cases hm : c.muted <;> simp [emit, emitHandle, write, hm]
  note key state h := h.adjust (f := fun c => { c with notes := c.notes.setIfInBounds key state })
    fun _ _ _ => rfl
  dynamic dynamic h := h.adjust (f := fun c => { c with dynamic }) fun _ _ _ => rfl
  controller controllers h := h.adjust (f := fun c => { c with controllers }) fun _ _ _ => rfl
  bend bend h := h.adjust (f := fun c => { c with bend }) fun _ _ _ => rfl

end Channel

namespace ChannelM

open Channel

variable {octaves : Int}

/-- The two runs are compared wherever they fail. -/
def unexcused : Excuses where
  first _ := False
  second _ := False

theorem raised_modify (f : Channel → Channel)
    (hf : ∀ c octave percussion,
      f { c with octave, percussion } = { f c with octave, percussion }) :
    Mirrors unexcused (Raised octaves) Eq (modify f) (modify f) :=
  mirrors_modify fun _ _ hc => hc.adjust hf

theorem raised_retractRelease (key : Nat) :
    Mirrors unexcused (Raised octaves) Eq (retractRelease key) (retractRelease key) := by
  refine mirrors_get_bind fun c c' hc => ?_
  rw [hc.common (·.joinedRelease? key) fun _ _ => rfl]
  cases c'.joinedRelease? key with
  | error e => exact mirrors_throw e
  | ok found =>
    cases found with
    | none => exact mirrors_pure rfl
    | some handle =>
      exact (raised_modify _ fun _ _ _ => rfl).bind_eq fun _ => mirrors_pure rfl

theorem raised_attackVelocity (key : Nat) (delta : Int) :
    Mirrors unexcused (Raised octaves) Eq (attackVelocity key delta)
      (attackVelocity key delta) := by
  refine (raised_retractRelease key).bind_eq fun joined => ?_
  have hvelocity : ∀ louder : Dynamic → Option Nat, Mirrors unexcused (Raised octaves) Eq
      (do ofOption (louder (← get).dynamic)) (do ofOption (louder (← get).dynamic)) := by
    refine fun louder => mirrors_get_bind fun c c' hc => ?_
    rw [hc.common dynamic fun _ _ => rfl]
    exact mirrors_ofOption _
  cases joined with
  | true => exact hvelocity (·.softened? delta)
  | false => exact hvelocity (·.louder? delta)

theorem raised_later (delta : Int) (action : Action) :
    Mirrors unexcused (Raised octaves) Eq (later delta action) (later delta action) := by
  refine mirrors_get_bind fun c c' hc => ?_
  rw [hc.common clock fun _ _ => rfl]
  exact (mirrors_ofOption _).bind_eq fun tick => raised_modify _ fun _ _ _ => rfl

theorem raised_strike (key : Nat) (delta : Int) (duration offVelocity : Nat) :
    Mirrors unexcused (Raised octaves) Eq (strike key delta duration offVelocity)
      (strike key delta duration offVelocity) :=
  (raised_attackVelocity key delta).bind_eq fun _ => (sending_raised.noteOn key _).bind_eq
    fun _ => raised_later _ _

theorem lockstep_raised (target : Nat) :
    Lockstep unexcused (Raised octaves) target target where
  due {c c' tick actions rest} h hpop := by
    rw [h.common pending fun _ _ => rfl] at hpop
    refine ⟨tick, rest, hpop, ?_⟩
    exact h.adjust (f := fun c => { c with pending := rest, clock := max c.clock tick })
      fun _ _ _ => rfl
  idle h _ hpop := by
    rw [h.common pending fun _ _ => rfl] at hpop
    exact ⟨hpop, h.adjust (f := fun c => { c with clock := target }) fun _ _ _ => rfl⟩
  run := sending_raised.run raised_strike

theorem mirroring_raised : Mirroring unexcused (Raised octaves) octaves where
  clock h := h.common clock fun _ _ => rfl
  lastDue h := h.common (·.pending.lastDue?) fun _ _ => rfl
  timing h := h.common timing fun _ _ => rfl
  soundingKey h := h.soundingKey_eq
  controllerValue h := h.common controllerValue fun _ _ => rfl
  strike := raised_strike
  later := raised_later
  advance := mirrors_advance (fun h => h.common clock fun _ _ => rfl) lockstep_raised
  setDynamic := sending_raised.setDynamic
  setController := sending_raised.setController
  setSlurred _ := raised_modify _ fun _ _ _ => rfl

/-- The same outcome on a channel that moves pitches by octaves from now on. -/
def withOctave {α : Type} (octaves : Int) :
    EStateM.Result Failure Channel α → EStateM.Result Failure Channel α
  | .ok a c => .ok a { c with octave := octaves }
  | .error e c => .error e { c with octave := octaves }

/-- Outcomes that are alike differ only in the octave of the channel. -/
theorem eq_withOctave_of_alike {α : Type} {r r' : EStateM.Result Failure Channel α}
    (h : Alike unexcused (Raised octaves) Eq r r') : r = withOctave octaves r' := by
  cases r <;> cases r'
  · obtain ⟨rfl, hc⟩ := h
    exact congrArg _ hc.same
  · exact h.elim
  · exact h.elim
  · obtain h | h | ⟨rfl, hc⟩ := h
    · exact h.elim
    · exact h.elim
    · exact congrArg _ hc.same

/-- A phrase whose rhythm is no longer than its melody does the same, and fails alike, whether the
channel or the melody is moved by octaves, on a channel that is not for percussion and is not moved
yet. What it leaves differs only in the octave of the channel. -/
theorem playPhrase_of_setOctave {c : Channel} {p : Phrase} (octaves : Int)
    (hpercussion : c.percussion = false) (hoctave : c.octave = 0)
    (hlength : p.rhythm.size ≤ p.melody.size) :
    (do setOctave octaves; playPhrase p) c =
      withOctave octaves (playPhrase (p.shiftOctave octaves) c) := by
  have hplay : Mirrors unexcused (Raised octaves) Eq (playPhrase p)
      (playPhrase (p.shiftOctave octaves)) :=
    mirroring_raised.playPhrase (p.size_shiftOctave octaves)
      (Phrase.elements_shiftOctave hlength octaves)
  exact eq_withOctave_of_alike (hplay.alike ⟨hpercussion, hoctave, rfl⟩)

/-- A slurred key that is folded at the top, a strum that enters late, a rest, and a chord with a
tone that is folded and one that is not. -/
def folding : Phrase where
  melody := ⟨[⟨.pitch (.key ⟨119, by decide⟩), .plain⟩,
    ⟨.chord ⟨[.c, .rest, .key ⟨100, by decide⟩]⟩, .gliscando⟩,
    ⟨.pitch .rest, .tenuto⟩,
    ⟨.chord ⟨[.key ⟨126, by decide⟩, .key ⟨3, by decide⟩]⟩, .marcato⟩,
    ⟨.pitch (.key ⟨126, by decide⟩), .gliscando⟩]⟩
  rhythm := ⟨[⟨0.5, true⟩, ⟨0.25, true⟩, ⟨0.25, false⟩, ⟨0.25, true⟩]⟩

theorem playPhrase_of_setOctave_folding :
    let c : Channel := { track := { channel := 0 } }
    c.percussion = false ∧ c.octave = 0 ∧ folding.rhythm.size ≤ folding.melody.size ∧
      (playPhrase (folding.shiftOctave 2)).succeeds c ∧
      (do setOctave 2; playPhrase folding) c =
        withOctave 2 (playPhrase (folding.shiftOctave 2) c) := by
  have hlength : folding.rhythm.size ≤ folding.melody.size := by decide
  have hplays : (playPhrase (folding.shiftOctave 2)).succeeds { track := { channel := 0 } } := by
    decide +kernel
  exact ⟨rfl, rfl, hlength, hplays, playPhrase_of_setOctave 2 rfl rfl hlength⟩

end ChannelM

end MidiScore
