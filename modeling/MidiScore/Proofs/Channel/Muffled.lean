import MidiScore.Channel.Operation
import MidiScore.Proofs.Channel.Mirrors
import MidiScore.Proofs.Channel.Reachable
import MidiScore.Proofs.Channel.Replacement
import MidiScore.Proofs.Channel.Secures

/-!
# A muted channel beside one that sounds

Muting a channel filters what it writes and changes nothing else that it does. A channel that writes
no releases records none, so that a slurred strike may join a release on the one channel and be
louder on the other, but what is struck, promised and refused is the same. The only exception is a
strike that is softened: its velocity may outgrow its word where the louder one does not. So as long
as no number overflows, operations on the two channels fail alike and leave the same channel up to
what was written (`failures_of_muted`).
-/

namespace MidiScore

namespace Channel

/-- The channel without what it has written, the releases it recorded and its mute. -/
def bare (c : Channel) : Channel :=
  { c with
    track := { channel := c.number }
    releases := .replicate 128 none
    muted := false }

/-- A muted channel and one that sounds and else differs at most in what was written. -/
inductive Muffled : Channel → Channel → Prop where
  | intro {c : Channel} {track : Track} {releases : Vector (Option Nat) 128}
    (number_le : c.number ≤ 15) (channel : track.channel = c.number) (muted : c.muted = true) :
    Muffled c { c with track, releases, muted := false }

theorem muffled_of_bare {c c' : Channel} (hn : c.number ≤ 15) (h : c.bare = c'.bare)
    (hm : c.muted = true) (hm' : c'.muted = false) : Muffled c c' := by
  have hc' : c' = { c with track := c'.track, releases := c'.releases, muted := false } := by
    cases c
    cases c'
    simp only [bare, mk.injEq] at h
    obtain ⟨-, rfl, rfl, rfl, rfl, rfl, -, rfl, rfl, rfl, rfl, rfl, rfl, -, rfl, rfl⟩ := h
    cases hm'
    rfl
  rw [hc']
  exact .intro hn (congrArg number h).symm hm

namespace Muffled

variable {c c' : Channel}

theorem bare_eq (h : Muffled c c') : c.bare = c'.bare := by
  obtain ⟨-, hchannel, -⟩ := h
  show _ = { c with track := { channel := _ }, releases := _, muted := _ }
  unfold bare number
  rw [hchannel]
  rfl

theorem number_eq (h : Muffled c c') : c.number = c'.number := by
  have hbare := congrArg number h.bare_eq
  exact hbare

theorem clock_eq (h : Muffled c c') : c.clock = c'.clock := by
  obtain ⟨-, -, -⟩ := h
  rfl

theorem dynamic_eq (h : Muffled c c') : c.dynamic = c'.dynamic := by
  obtain ⟨-, -, -⟩ := h
  rfl

theorem number_le (h : Muffled c c') : c.number ≤ 15 := by
  obtain ⟨hn, -, -⟩ := h
  exact hn

theorem write (h : Muffled c c') (m : Message) : Muffled c (c'.write m) := by
  obtain ⟨hn, ht, hm⟩ := h
  exact .intro hn ht hm

/-- A message is written on the channel that sounds and not on the muted one. -/
theorem emit (h : Muffled c c') (m m' : Message) : Muffled (c.emit m) (c'.emit m') := by
  have hsilent : c.emit m = c := by
    obtain ⟨-, -, hm⟩ := h
    exact if_pos hm
  have hsounds : c'.emit m' = c'.write m' := by
    obtain ⟨-, -, -⟩ := h
    exact emit_of_not_muted rfl
  rw [hsilent, hsounds]
  exact h.write m'

/-- What either channel wrote or recorded does not matter. -/
theorem congr (h : Muffled c c') {track track' : Track}
    {releases releases' : Vector (Option Nat) 128} (ht : track.channel = c.number)
    (ht' : track'.channel = c.number) :
    Muffled { c with track, releases } { c' with track := track', releases := releases' } := by
  obtain ⟨hn, hchannel, hm⟩ := h
  exact .intro (c := { c with track, releases }) (by rwa [number, ht]) (ht'.trans ht.symm) hm

/-- What does not touch what was written, recorded and muted is done to both. -/
theorem adjust {f : Channel → Channel} (h : Muffled c c')
    (hf : ∀ c track releases muted,
      f { c with track, releases, muted } = { f c with track, releases, muted }) :
    Muffled (f c) (f c') := by
  obtain @⟨track, releases, hn, ht, hm⟩ := h
  have hfc : f c = { f c with track := c.track, releases := c.releases, muted := c.muted } :=
    hf c c.track c.releases c.muted
  have htrack : (f c).track = c.track := by rw [hfc]
  have hmuted : (f c).muted = c.muted := by rw [hfc]
  rw [hf c track releases false]
  refine .intro ?_ ?_ (hmuted.trans hm)
  · rwa [number, htrack]
  · rwa [number, htrack]

end Muffled

theorem sending_muffled : ChannelM.Sending Muffled where
  number h := h.number_eq
  slurred h := by obtain ⟨-, -, -⟩ := h; rfl
  controllers h := by obtain ⟨-, -, -⟩ := h; rfl
  emit m h := h.emit m m
  release key m h := by
    have hm := h.emit m m
    exact hm.congr rfl hm.number_eq.symm
  note key state h := h.adjust (f := fun c => { c with notes := c.notes.setIfInBounds key state })
    fun _ _ _ _ => rfl
  dynamic dynamic h := h.adjust (f := fun c => { c with dynamic }) fun _ _ _ _ => rfl
  controller controllers h := h.adjust (f := fun c => { c with controllers }) fun _ _ _ _ => rfl
  bend bend h := h.adjust (f := fun c => { c with bend }) fun _ _ _ _ => rfl

end Channel

namespace ChannelM

open Channel

/-- Neither run is compared where a number overflows. -/
def overflows : Excuses where
  first := (· = .overflow)
  second := (· = .overflow)

theorem mirrors_adjust (f : Channel → Channel)
    (hf : ∀ c track releases muted,
      f { c with track, releases, muted } = { f c with track, releases, muted }) :
    Mirrors overflows Muffled Eq (modify f) (modify f) :=
  mirrors_modify fun _ _ hc => hc.adjust hf

/-- Finding the velocity of a strike fails only because a number overflows. -/
theorem secures_attackVelocity {P : Channel → Prop} (key : Nat) (delta : Int) :
    Secures P (attackVelocity key delta) fun _ _ => True := by
  refine Secures.bind (Q := fun _ _ => True) ?_ fun joined => ?_
  · refine secures_get_bind fun c _ =>
      (secures_ofExcept fun e => overflow_of_joinedRelease?).bind fun found => ?_
    cases found with
    | some handle =>
      exact (secures_modify (Q := fun _ _ => True) fun _ _ => trivial).bind fun _ =>
        secures_pure fun _ _ => trivial
    | none => exact secures_pure fun _ _ => trivial
  · cases joined <;>
    exact secures_get_bind fun c _ => (secures_ofOption _).weaken (fun _ => id) fun _ _ _ => trivial

/-- The velocity of a strike is found, changing at most what was written, or it overflows. A key off
the keyboard is struck as loud as it is asked to be. -/
theorem attackVelocity_cases (key : Nat) (delta : Int) (c : Channel) :
    (∃ velocity track releases,
        attackVelocity key delta c = .ok velocity { c with track, releases } ∧
        velocity ≤ 127 ∧ track.channel = c.number ∧
        (key < 128 ∨ c.dynamic.louder? delta = some velocity)) ∨
      ∃ c₁, attackVelocity key delta c = .error .overflow c₁ := by
  rcases (secures_attackVelocity key delta (P := (· = c))).cases_run rfl with
    ⟨velocity, c₁, h, -⟩ | herror
  · left
    rcases of_attackVelocity h with ⟨handle, hj, rfl, hv⟩ | ⟨hj, rfl, hv⟩
    · obtain ⟨-, -, hr, -⟩ := exists_of_joinedRelease? hj
      exact ⟨velocity, (c.takenBack key handle).track, (c.takenBack key handle).releases, h,
        Dynamic.softened?_le hv, rfl, .inl (lt_of_release? hr)⟩
    · exact ⟨velocity, c₁.track, c₁.releases, h, Dynamic.louder?_le hv, rfl, .inr hv⟩
  · exact .inr herror

/-- The two channels may strike a key with different velocities, but not one off the keyboard. -/
theorem mirrors_attackVelocity (key : Nat) (delta : Int) :
    Mirrors overflows Muffled (fun v v' => v ≤ 127 ∧ v' ≤ 127 ∧ (key < 128 ∨ v = v'))
      (attackVelocity key delta) (attackVelocity key delta) := by
  refine ⟨fun {c c'} h => ?_⟩
  rcases attackVelocity_cases key delta c with ⟨v, track, releases, hrun, hv, ht, hkey⟩ | ⟨c₁, hrun⟩
  · rcases attackVelocity_cases key delta c' with
      ⟨v', track', releases', hrun', hv', ht', hkey'⟩ | ⟨c₁', hrun'⟩
    · rw [hrun, hrun']
      refine ⟨⟨hv, hv', ?_⟩, h.congr ht (ht'.trans h.number_eq.symm)⟩
      rcases hkey with hkey | hloud
      · exact .inl hkey
      · rcases hkey' with hkey | hloud'
        · exact .inl hkey
        · rw [h.dynamic_eq, hloud'] at hloud
          exact .inr (Option.some.inj hloud).symm
    · rw [hrun']
      exact Alike.of_second rfl _
  · rw [hrun]
    exact Alike.of_first rfl _

theorem mirrors_noteOn {key v v' : Nat} (h : v ≤ 127 ∧ v' ≤ 127 ∧ (key < 128 ∨ v = v')) :
    Mirrors overflows Muffled Eq (noteOn key v) (noteOn key v') := by
  obtain ⟨hv, hv', hkey | rfl⟩ := h
  · refine mirrors_get_bind fun c c' hc => ?_
    have hvalid := fun velocity (hv : velocity ≤ 127) =>
      Message.validate_noteOn.2 ⟨hc.number_le, Nat.le_of_lt_succ hkey, hv⟩
    rw [← hc.number_eq, sending_muffled.slurred hc]
    refine Mirrors.bind_eq ?_ fun _ => sending_muffled.setNote key _
    exact mirrors_send (hvalid v hv) (hvalid v' hv') fun _ _ h => h.emit _ _
  · exact sending_muffled.noteOn key v

theorem mirrors_later (delta : Int) (action : Action) :
    Mirrors overflows Muffled Eq (later delta action) (later delta action) := by
  refine mirrors_get_bind fun c c' hc => ?_
  rw [hc.clock_eq]
  exact (mirrors_ofOption _).bind_eq fun tick => mirrors_adjust _ fun _ _ _ _ => rfl

theorem mirrors_strike (key : Nat) (delta : Int) (duration offVelocity : Nat) :
    Mirrors overflows Muffled Eq (strike key delta duration offVelocity)
      (strike key delta duration offVelocity) :=
  (mirrors_attackVelocity key delta).bind fun _ _ h => (mirrors_noteOn h).bind_eq fun _ =>
    mirrors_later _ _

theorem mirrors_setSlurred (slurred : Bool) :
    Mirrors overflows Muffled Eq (setSlurred slurred) (setSlurred slurred) :=
  mirrors_adjust _ fun _ _ _ _ => rfl

/-! ## The clock -/

theorem lockstep_muffled (target : Nat) : Lockstep overflows Muffled target target where
  due h hpop := by
    obtain ⟨hn, ht, hm⟩ := h
    exact ⟨_, _, hpop, .intro hn ht hm⟩
  idle h _ hpop := by
    obtain ⟨hn, ht, hm⟩ := h
    exact ⟨hpop, .intro hn ht hm⟩
  run := sending_muffled.run mirrors_strike

theorem mirroring_muffled : Mirroring overflows Muffled 0 where
  clock h := h.clock_eq
  lastDue h := by obtain ⟨-, -, -⟩ := h; rfl
  timing h := by obtain ⟨-, -, -⟩ := h; rfl
  soundingKey h p := by obtain ⟨-, -, -⟩ := h; rw [p.shiftOctave_zero]; rfl
  controllerValue h := by obtain ⟨-, -, -⟩ := h; rfl
  strike := mirrors_strike
  later := mirrors_later
  advance := mirrors_advance (fun h => h.clock_eq) lockstep_muffled
  setDynamic := sending_muffled.setDynamic
  setController := sending_muffled.setController
  setSlurred := mirrors_setSlurred

/-! ## Settings -/

theorem mirrors_setOctave (octave : Int) :
    Mirrors overflows Muffled Eq (setOctave octave) (setOctave octave) :=
  mirrors_adjust _ fun _ _ _ _ => rfl

theorem mirrors_setTransposition (semitones : Int) :
    Mirrors overflows Muffled Eq (setTransposition semitones) (setTransposition semitones) :=
  mirrors_adjust _ fun _ _ _ _ => rfl

theorem mirrors_sendBank (bank : Nat) :
    Mirrors overflows Muffled Eq (sendBank bank) (sendBank bank) := by
  refine mirrors_get_bind fun c c' hc => ?_
  rw [hc.number_eq]
  refine (mirrors_check _).bind_eq fun _ => (mirrors_check _).bind_eq fun _ => ?_
  exact (sending_muffled.send _).bind_eq fun _ => sending_muffled.send _

theorem mirrors_setInstrument (program : Nat) :
    Mirrors overflows Muffled Eq (setInstrument program) (setInstrument program) := by
  refine mirrors_get_bind fun c c' hc => ?_
  have hbank : c.bank = c'.bank := by obtain ⟨-, -, -⟩ := hc; rfl
  have hsend : Mirrors overflows Muffled Eq
      (do
        send (.programChange c'.number program)
        modify fun c => { c with instrument := some program })
      (do
        send (.programChange c'.number program)
        modify fun c => { c with instrument := some program }) := by
    exact (sending_muffled.send _).bind_eq fun _ => mirrors_adjust _ fun _ _ _ _ => rfl
  rw [hc.number_eq, hbank]
  refine (mirrors_check _).bind_eq fun _ => ?_
  cases c'.bank with
  | some bank => exact (mirrors_sendBank bank).bind_eq fun _ => hsend
  | none => exact hsend

theorem mirrors_setBank (bank : Nat) :
    Mirrors overflows Muffled Eq (setBank bank) (setBank bank) := by
  refine mirrors_get_bind fun c c' hc => ?_
  have hinstrument : c.instrument = c'.instrument := by obtain ⟨-, -, -⟩ := hc; rfl
  rw [hc.number_eq, hinstrument]
  refine (mirrors_check _).bind_eq fun _ => ?_
  exact (mirrors_adjust (fun c => { c with bank := some bank }) fun _ _ _ _ => rfl).bind_eq
    fun _ => mirrors_setInstrument _

theorem mirrors_restrike : Mirrors overflows Muffled Eq restrike restrike := by
  refine mirrors_get_bind fun c c' hc => ?_
  have hnotes : c.noteState = c'.noteState := by obtain ⟨-, -, -⟩ := hc; rfl
  rw [hc.number_eq, hnotes]
  exact mirrors_forM (fun key => sending_muffled.send _) _

/-! ## Replacements -/

/-- Only the muted channel cuts its sound. -/
theorem mirrors_cutSound {c c' : Channel} (h : Muffled c c') :
    Mirrors overflows Muffled Eq (if c.muted then cutSound else pure ())
      (if c'.muted then cutSound else pure ()) := by
  obtain ⟨-, -, hm⟩ := h
  rw [hm, if_pos rfl, if_neg Bool.false_ne_true]
  refine ⟨fun {c c'} hc => ?_⟩
  rw [cutSound_eq hc.number_le]
  have hnumber : c'.track.channel = c.number := hc.number_eq.symm
  exact ⟨rfl, hc.congr rfl hnumber⟩

theorem mirrors_reassert {c c' : Channel} (h : Muffled c c') :
    Mirrors overflows Muffled Eq (reassert c) (reassert c') := by
  have hinstrument : c.instrument = c'.instrument := by obtain ⟨-, -, -⟩ := h; rfl
  have hbend : c.bend = c'.bend := by obtain ⟨-, -, -⟩ := h; rfl
  unfold reassert
  rw [hinstrument, hbend]
  refine Mirrors.bind_eq ?_ fun _ => Mirrors.bind_eq ?_ fun _ => (mirrors_cutSound h).bind_eq
    fun _ => mirrors_restrike
  · cases c'.instrument with
    | some program => exact mirrors_setInstrument program
    | none => exact mirrors_pure rfl
  · by_cases hb : c'.bend ≠ bendCenter
    · rw [if_pos hb]
      exact sending_muffled.setBend _
    · rw [if_neg hb]
      exact mirrors_pure rfl

/-- The tracks that were replaced differ. -/
theorem mirrors_replaceTrack (track : Track) :
    Mirrors overflows Muffled (fun _ _ => True) (replaceTrack track) (replaceTrack track) := by
  refine ⟨fun {c c'} h => ?_⟩
  by_cases hn : track.channel = c.number
  · have hmoved : Muffled (c.movedTo track) (c'.movedTo track) := by
      obtain ⟨hle, -, hm⟩ := h
      have hle' : (c.movedTo track).number ≤ 15 := Nat.le_trans (Nat.le_of_eq hn) hle
      exact .intro hle' rfl hm
    rw [replaceTrack_of_eq hn, replaceTrack_of_eq (hn.trans h.number_eq)]
    exact ((mirrors_reassert h).bind_eq fun _ => mirrors_pure trivial).alike hmoved
  · rw [replaceTrack_of_ne hn, replaceTrack_of_ne fun hn' => hn (hn'.trans h.number_eq.symm)]
    exact .inr (.inr ⟨rfl, h⟩)

end ChannelM

/-! ## Operations -/

/-- Whether the operation mutes the channel or lets it sound again. -/
def Operation.mutes : Operation → Bool
  | setMuted _ => true
  | _ => false

namespace ChannelM

open Channel

theorem mirrors_acknowledge {m m' : ChannelM Unit} (h : Mirrors overflows Muffled Eq m m') :
    Mirrors overflows Muffled (fun _ _ => True) (acknowledge m) (acknowledge m') :=
  h.bind_eq fun _ => mirrors_pure trivial

/-- Whatever is done to the two channels fails alike, if it is not to mute one of them. -/
theorem mirrors_perform {op : Operation} (hop : op.mutes = false) :
    Mirrors overflows Muffled (fun _ _ => True) op.perform op.perform := by
  have hR := mirroring_muffled
  have hticks : ∀ {m : ChannelM Nat}, Mirrors overflows Muffled Eq m m →
      Mirrors overflows Muffled (fun _ _ => True) (Reply.ticks <$> m) (Reply.ticks <$> m) :=
    fun hm => hm.map fun _ _ _ => trivial
  cases op with
  | advance ticks => exact hticks (hR.advance ticks)
  | advanceBeat beat => exact hticks (hR.advanceBeat beat)
  | leapTo tick => exact hticks (hR.leapTo tick)
  | later delta action => exact mirrors_acknowledge (hR.later delta action)
  | laterBeat beat action =>
    refine mirrors_acknowledge (mirrors_get_bind fun c c' h => ?_)
    rw [hR.timing h]
    exact hR.after _ action
  | flush => exact hticks hR.flush
  | follow directive => exact hticks (hR.follow directive)
  | playNote p delta duration off =>
    have hplay := hR.resounding.playNote p delta duration off
    rw [p.shiftOctave_zero] at hplay
    exact mirrors_acknowledge hplay
  | setDynamic dynamic => exact mirrors_acknowledge (hR.setDynamic dynamic)
  | setOctave octaves => exact mirrors_acknowledge (mirrors_setOctave octaves)
  | setTransposition semitones => exact mirrors_acknowledge (mirrors_setTransposition semitones)
  | setSlurred slurred => exact mirrors_acknowledge (hR.setSlurred slurred)
  | setInstrument program => exact mirrors_acknowledge (mirrors_setInstrument program)
  | setBank bank => exact mirrors_acknowledge (mirrors_setBank bank)
  | setMuted muted => cases hop
  | setBend value => exact mirrors_acknowledge (sending_muffled.setBend value)
  | resetBend => exact mirrors_acknowledge (sending_muffled.setBend _)
  | setController number value => exact mirrors_acknowledge (hR.setController number value)
  | pressPedal number => exact mirrors_acknowledge (hR.setController number _)
  | releasePedal number => exact mirrors_acknowledge (hR.setController number _)
  | replaceTrack track => exact (mirrors_replaceTrack track).map fun _ _ _ => trivial
  | playPhrase phrase => exact hticks (hR.playPhrase rfl (by simp))
  | playSound sound beat =>
    have hplay := hR.playSound sound beat
    rw [sound.shiftOctave_zero] at hplay
    exact mirrors_acknowledge hplay
  | playRamp ramp => exact mirrors_acknowledge (hR.playRamp ramp)

/-- Why an operation fails on a channel, if it does. -/
def failure? {α : Type} (m : ChannelM α) (c : Channel) : Option Failure :=
  match m c with
  | .ok .. => none
  | .error e _ => some e

end ChannelM

namespace Channel

/-- Why each of the operations fails, if it does, when they are performed one after the other. -/
def failures (c : Channel) : List Operation → List (Option Failure)
  | [] => []
  | op :: rest => op.perform.failure? c :: (op.perform.leaves c).failures rest

/-- What an operation that overflows on neither channel leaves. -/
theorem Muffled.perform {c c' : Channel} {op : Operation} (h : Muffled c c')
    (hop : op.mutes = false) (ho : op.perform.failure? c ≠ some .overflow)
    (ho' : op.perform.failure? c' ≠ some .overflow) :
    op.perform.failure? c = op.perform.failure? c' ∧
      Muffled (op.perform.leaves c) (op.perform.leaves c') := by
  have halike := (ChannelM.mirrors_perform hop).alike h
  unfold ChannelM.failure? ChannelM.leaves at *
  cases hr : op.perform c <;> cases hr' : op.perform c' <;> rw [hr, hr'] at halike
  · exact ⟨rfl, halike.2⟩
  · rw [hr', show _ = Failure.overflow from halike] at ho'
    exact absurd rfl ho'
  · rw [hr, show _ = Failure.overflow from halike] at ho
    exact absurd rfl ho
  · rw [hr] at ho
    rw [hr'] at ho'
    obtain rfl | rfl | ⟨rfl, hleft⟩ := halike
    · exact absurd rfl ho
    · exact absurd rfl ho'
    · exact ⟨rfl, hleft⟩

theorem Muffled.performAll {c c' : Channel} {ops : List Operation} (h : Muffled c c')
    (hops : ∀ op ∈ ops, op.mutes = false) (ho : some .overflow ∉ c.failures ops)
    (ho' : some .overflow ∉ c'.failures ops) :
    c.failures ops = c'.failures ops ∧ Muffled (c.performAll ops) (c'.performAll ops) := by
  induction ops generalizing c c' with
  | nil => exact ⟨rfl, h⟩
  | cons op rest ih =>
    obtain ⟨hop, hrest⟩ := List.forall_mem_cons.1 hops
    obtain ⟨hne, ho⟩ := not_or.1 fun h => ho (List.mem_cons.2 h)
    obtain ⟨hne', ho'⟩ := not_or.1 fun h => ho' (List.mem_cons.2 h)
    obtain ⟨hfirst, hleft⟩ := h.perform hop (Ne.symm hne) (Ne.symm hne')
    obtain ⟨hfailures, hlast⟩ := ih hleft hrest ho ho'
    exact ⟨congrArg₂ List.cons hfirst hfailures, hlast⟩

/-- Two channels that differ at most in what they have written and the releases they recorded, one
of them muted, perform the same operations and fail alike, and still differ in nothing else, as long
as no number overflows on either. -/
theorem failures_of_muted (c c' : Channel) (ops : List Operation) (hn : c.number ≤ 15)
    (hsame : c.bare = c'.bare) (hm : c.muted = true) (hm' : c'.muted = false)
    (hops : ∀ op ∈ ops, op.mutes = false) (ho : some .overflow ∉ c.failures ops)
    (ho' : some .overflow ∉ c'.failures ops) :
    c.failures ops = c'.failures ops ∧ (c.performAll ops).bare = (c'.performAll ops).bare := by
  obtain ⟨hfailures, hleft⟩ := (muffled_of_bare hn hsame hm hm').performAll hops ho ho'
  exact ⟨hfailures, hleft.bare_eq⟩

/-- A strike that joins a release on the channel that sounds, a setting that is refused, a strum and
a replacement. -/
def hushedRun : List Operation :=
  [.setSlurred true, .playNote .c 0 100 64, .advance 100, .playNote .c 8 100 64, .setBank 3,
   .setController 200 1, .playSound ⟨.chord ⟨[.c, .e, .g]⟩, .gliscando⟩ .quarter, .advance 100,
   .replaceTrack { channel := 3 }, .flush]

theorem failures_of_muted_hushed :
    let c' : Channel := { track := { channel := 3 } }
    let c := c'.performAll [.setMuted true]
    c.number ≤ 15 ∧ c.bare = c'.bare ∧ c.muted = true ∧ c'.muted = false ∧
      (∀ op ∈ hushedRun, op.mutes = false) ∧ some .overflow ∉ c.failures hushedRun ∧
      some .overflow ∉ c'.failures hushedRun ∧
      c.failures hushedRun = c'.failures hushedRun ∧
      (c.performAll hushedRun).bare = (c'.performAll hushedRun).bare := by
  intro c' c
  have hn : c.number ≤ 15 := by decide +kernel
  have hops : ∀ op ∈ hushedRun, op.mutes = false := by decide
  have ho : some .overflow ∉ c.failures hushedRun := by decide +kernel
  have ho' : some .overflow ∉ c'.failures hushedRun := by decide +kernel
  exact ⟨hn, rfl, rfl, rfl, hops, ho, ho',
    failures_of_muted c c' hushedRun hn rfl rfl rfl hops ho ho'⟩

/-- A strike that asks a silent channel to be as soft as can be, where it joins a release. To soften
it further its loudness is negated. -/
def faintRun : List Operation :=
  [.setDynamic ⟨0, by decide⟩, .setSlurred true, .playNote .c 0 10 96, .advance 10,
   .playNote .c (-1 <<< 31) 10 96]

/-- If a number overflows the channels may fail differently: the strike that is softened on the
channel that sounds is plain on the muted one. -/
theorem not_failures_of_muted :
    let c' : Channel := { track := { channel := 0 } }
    let c := c'.performAll [.setMuted true]
    c.Reachable ∧ c'.Reachable ∧ c.bare = c'.bare ∧ c.muted = true ∧ c'.muted = false ∧
      (∀ op ∈ faintRun, op.mutes = false) ∧
      c.failures faintRun = [none, none, none, none, none] ∧
      c'.failures faintRun = [none, none, none, none, some .overflow] := by
  intro c' c
  have hplain : c.failures faintRun = [none, none, none, none, none] := by decide +kernel
  have hsoft : c'.failures faintRun = [none, none, none, none, some .overflow] := by
    decide +kernel
  have hfresh : onTrack { channel := 0 } false .standard = .ok c' := rfl
  exact ⟨⟨_, _, _, c', [.setMuted true], hfresh, rfl⟩, ⟨_, _, _, c', [], hfresh, rfl⟩,
    rfl, rfl, rfl, by decide, hplain, hsoft⟩

end Channel

end MidiScore
