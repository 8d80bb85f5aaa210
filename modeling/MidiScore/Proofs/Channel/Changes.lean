import Mathlib.Logic.Relation
import MidiScore.Proofs.Channel.Lasts
import MidiScore.Proofs.Channel.Sending

/-!
# What an operation changes

Whatever is done to a channel changes it in a few ways (`Change`), each of which says all that it
changes and under what condition. An operation is a chain of such changes, whether or not it fails
(`changes_perform`). So what outlasts every change outlasts every operation (`Changes.preserve`),
and an invariant of a channel is proved change by change.

A change that pulls nothing out of the track and strikes no key is an addition (`Addition`). All
that is done but to strike a key or to replace the track is a chain of additions. So an operation is
a chain of steps of any relation that covers these and strikes (`Covers.perform`).

As far as the track goes there are three kinds of changes (`Change.track_cases`): messages are
written, a release is pulled out, or the channel moves to another track.
-/

namespace MidiScore

/-- Whether an operation does not stop at the mute of a channel: it mutes the channel or lets it
sound again, or replaces its track. -/
def Operation.resets : Operation → Bool
  | setMuted _ | replaceTrack _ => true
  | _ => false

namespace Channel

/-- A single change that an operation makes to a channel. -/
inductive Change (op : Operation) : Channel → Channel → Prop where
  | strike {c : Channel} {key velocity : Nat}
    (valid : (Message.noteOn c.number key velocity).validate = .ok ()) :
    Change op c (c.struck key velocity)
  | release {c : Channel} {key velocity : Nat}
    (valid : (Message.noteOff c.number key velocity).validate = .ok ()) :
    Change op c (c.released key velocity)
  | takeBack {c : Channel} {key handle : Nat}
    (joined : c.joinedRelease? key = .ok (some handle)) : Change op c (c.takenBack key handle)
  | control {c : Channel} {number value : Nat}
    (valid : (Message.controlChange c.number number value).validate = .ok ()) :
    Change op c { c with
      track := (c.emit (.controlChange c.number number value)).track
      controllers := c.controllers.setIfInBounds number ((c.controller number).set value) }
  | bend {c : Channel} {bend : Nat} (valid : (Message.pitchBend c.number bend).validate = .ok ()) :
    Change op c { c with track := (c.emit (.pitchBend c.number bend)).track, bend }
  /-- The instrument is sent behind the bank, which may be set with it. -/
  | program {c : Channel} {program : Nat} {bank : Option Nat}
    (valid : ∀ m ∈ { c with bank }.bankMessages ++ [.programChange c.number program],
      m.validate = .ok ()) :
    Change op c { c with
      track := (c.emitAll ({ c with bank }.bankMessages ++ [.programChange c.number program])).track
      bank
      instrument := some program }
  /-- A bank is set without an instrument only if there is one. -/
  | bank {c : Channel} {bank : Nat} (held : c.instrument.isSome)
    (valid : (Message.controlChange c.number Controller.bankLow bank).validate = .ok ()) :
    Change op c { c with bank := some bank }
  | adjust {c : Channel} (dynamic : Dynamic) (octave transposition : Int) :
    Change op c { c with dynamic, octave, transposition }
  | slur {c : Channel} (slurred : Bool) (slurs : slurred → op.slurs) :
    Change op c { c with slurred }
  | promise {c : Channel} {tick : Nat} (action : Action) (due : c.clock ≤ tick) :
    Change op c { c with pending := c.pending.push tick action }
  /-- The clock goes on to the first bucket, which is taken out of the agenda to be run. -/
  | take {c : Channel} {target tick : Nat} {actions : List Action} {rest : Agenda Action}
    (due : c.pending.popDue? target = some (tick, actions, rest)) :
    Change op c { c with pending := rest, clock := max c.clock tick }
  | wait {c : Channel} {target : Nat} (idle : c.pending.popDue? target = none)
    (le : c.clock ≤ target) : Change op c { c with clock := target }
  | cut {c : Channel} (resets : op.resets)
    (valid : (Message.controlChange c.number Controller.allSoundsOff 0).validate = .ok ()) :
    Change op c (c.write (.controlChange c.number Controller.allSoundsOff 0))
  | mute {c : Channel} {muted : Bool} (mutes : op = .setMuted muted) : Change op c { c with muted }
  | move {c : Channel} {track : Track} (replaces : op = .replaceTrack track)
    (same : track.channel = c.number) : Change op c (c.movedTo track)
  /-- A key that is held is struck on another track. -/
  | again {c : Channel} {key : Nat} (resets : op.resets)
    (valid : (Message.noteOn c.number key ChannelM.heldVelocity).validate = .ok ()) :
    Change op c { c with track := (c.emit (.noteOn c.number key ChannelM.heldVelocity)).track }

/-- Changes that an operation makes one after the other. -/
abbrev Changes (op : Operation) : Channel → Channel → Prop :=
  Relation.ReflTransGen (Change op)

/-- A change that pulls nothing out of the track and strikes no key. At most messages that are no
note-ons are written, and a key that is on was so before. -/
structure Addition (op : Operation) (c c' : Channel) : Prop where
  change : Change op c c'
  said : ∃ messages, c'.track = c.said messages ∧ ∀ m ∈ messages, m.isNoteOn = false
  isOn : ∀ key, (c'.noteState key).isOn → c'.noteState key = c.noteState key

/-- Additions that are made one after the other. -/
abbrev Additions (op : Operation) : Channel → Channel → Prop :=
  Relation.ReflTransGen (Addition op)

namespace Addition

variable {op : Operation} {c c' : Channel}

theorem of_emitAll {l : List Message} (change : Change op c c')
    (hl : ∀ m ∈ l, m.isNoteOn = false) (ht : c'.track = (c.emitAll l).track)
    (hn : c'.notes = c.notes) : Addition op c c' := by
  refine ⟨change, ⟨if c.muted then [] else l, ht.trans (track_emitAll c l), ?_⟩, fun key _ => ?_⟩
  · split
    · exact nofun
    · exact hl
  · unfold noteState
    rw [hn]

theorem of_emit {m : Message} (change : Change op c c') (hm : m.isNoteOn = false)
    (ht : c'.track = (c.emit m).track) (hn : c'.notes = c.notes) : Addition op c c' :=
  of_emitAll (l := [m]) change (fun m' hm' => by rwa [List.mem_singleton.1 hm']) ht hn

theorem of_silence (change : Change op c c') (ht : c'.track = c.track)
    (hn : c'.notes = c.notes) : Addition op c c' :=
  of_emitAll (l := []) change nofun ht hn

/-- The release of a key writes no note-on and leaves the key off. -/
theorem release {key velocity : Nat}
    (valid : (Message.noteOff c.number key velocity).validate = .ok ()) :
    Addition op c (c.released key velocity) := by
  refine ⟨.release valid, ⟨_, track_emitAll c [.noteOff c.number key velocity], ?_⟩, ?_⟩
  · split
    · exact nofun
    · exact fun m hm => by rw [List.mem_singleton.1 hm]; rfl
  · intro k hk
    rw [noteState_released] at hk ⊢
    split at hk
    · split at hk <;> cases hk
    · next hne => rw [if_neg hne]

/-- To cut the sound is to write even on a muted channel. -/
theorem cut (resets : op.resets)
    (valid : (Message.controlChange c.number Controller.allSoundsOff 0).validate = .ok ()) :
    Addition op c (c.write (.controlChange c.number Controller.allSoundsOff 0)) :=
  ⟨.cut resets valid, ⟨_, track_write c _, fun m hm => by rw [List.mem_singleton.1 hm]; rfl⟩,
    fun _ _ => rfl⟩

end Addition

end Channel

namespace ChannelM

open Channel

/-! ## What makes additions -/

section Additions

variable {op : Operation}

theorem additions_noteOff (key velocity : Nat) (c : Channel) :
    Additions op c ((noteOff key velocity).leaves c) := by
  cases hr : noteOff key velocity c with
  | ok u c' =>
    obtain ⟨hv, rfl⟩ := eq_of_noteOff hr
    rw [leaves_of_ok hr]
    exact .single (.release hv)
  | error e c' =>
    obtain rfl := eq_of_noteOff_error hr
    rw [leaves_of_error hr]

theorem additions_later (delta : Int) (action : Action) (c : Channel) :
    Additions op c ((later delta action).leaves c) := by
  cases hr : later delta action c with
  | ok u c' =>
    obtain ⟨tick, hge, -, rfl⟩ := of_later hr
    rw [leaves_of_ok hr]
    exact .single (.of_silence (.promise action hge) rfl rfl)
  | error e c' =>
    obtain rfl := eq_of_later_error hr
    rw [leaves_of_error hr]

theorem additions_setDynamic (dynamic : Dynamic) (c : Channel) :
    Additions op c ((setDynamic dynamic).leaves c) :=
  .single (.of_silence (.adjust dynamic c.octave c.transposition) rfl rfl)

theorem additions_setOctave (octave : Int) (c : Channel) :
    Additions op c ((setOctave octave).leaves c) :=
  .single (.of_silence (.adjust c.dynamic octave c.transposition) rfl rfl)

theorem additions_setTransposition (semitones : Int) (c : Channel) :
    Additions op c ((setTransposition semitones).leaves c) :=
  .single (.of_silence (.adjust c.dynamic c.octave semitones) rfl rfl)

theorem additions_setController (number value : Nat) (c : Channel) :
    Additions op c ((setController number value).leaves c) := by
  refine leaves_send_bind (fun hv => ?_) .refl
  rw [leaves_modify, emit_eq]
  exact .single (.of_emit (.control hv) rfl rfl rfl)

theorem additions_setBend (bend : Nat) (c : Channel) :
    Additions op c ((setBend bend).leaves c) := by
  refine leaves_send_bind (fun hv => ?_) .refl
  rw [leaves_modify, emit_eq]
  exact .single (.of_emit (.bend hv) rfl rfl rfl)

/-- An instrument that can be sent with the bank is sent and remembered. -/
theorem addition_setInstrument {program : Nat} (c : Channel) {bank : Option Nat}
    (hn : c.number ≤ 15) (hp : program ≤ 127) (hb : ∀ b, bank = some b → b ≤ 127) :
    Addition op c ((setInstrument program).leaves { c with bank }) := by
  rw [leaves_of_ok (setInstrument_eq (c := { c with bank }) hn hp hb), emitAll_eq]
  have hsame : ∀ l, ({ c with bank }.emitAll l).track = (c.emitAll l).track := fun l => by
    rw [track_emitAll, track_emitAll]
    rfl
  rw [hsame]
  refine .of_emitAll (.program fun m hm => ?_) (fun m hm => ?_) rfl rfl
  · rcases List.mem_append.1 hm with hm | hm
    · exact validate_of_mem_bankMessages (c := { c with bank }) hn hb hm
    · obtain rfl := List.mem_singleton.1 hm
      exact Message.validate_programChange.2 ⟨hn, hp⟩
  · rcases List.mem_append.1 hm with hm | hm
    · obtain ⟨number, value, rfl⟩ := exists_of_mem_bankMessages hm
      rfl
    · obtain rfl := List.mem_singleton.1 hm
      rfl

/-- The instrument is sent with the bank or not at all. -/
theorem additions_setInstrument (program : Nat) (c : Channel) :
    Additions op c ((setInstrument program).leaves c) := by
  show Additions op c ((check _ >>= _ : ChannelM Unit).leaves c)
  cases hv : (Message.programChange c.number program).validate with
  | error e => rw [leaves_bind_of_error _ (check_of_invalid hv c)]
  | ok u =>
    obtain ⟨hn, hp⟩ := Message.validate_programChange.1 hv
    by_cases hb : ∀ bank, c.bank = some bank → bank ≤ 127
    · exact .single (addition_setInstrument c hn hp hb)
    · simp only [not_forall] at hb
      obtain ⟨bank, hbank, hb⟩ := hb
      obtain ⟨e, hsend⟩ := sendBank_of_invalid hn hb
      rw [leaves_bind_of_ok _ (check_of_valid hv c), hbank]
      dsimp only
      rw [leaves_bind_of_error _ hsend]

theorem additions_setBank (bank : Nat) (c : Channel) :
    Additions op c ((setBank bank).leaves c) := by
  refine leaves_check_bind (fun hv => ?_) .refl
  show Additions op c ((setInstrument (c.instrument.getD 0)).leaves { c with bank := some bank })
  by_cases hheld : c.instrument.isSome
  · exact .head (.of_silence (.bank hheld hv) rfl rfl) (additions_setInstrument _ _)
  · have hzero : c.instrument.getD 0 = 0 := by
      rw [Option.not_isSome_iff_eq_none.1 hheld]
      rfl
    rw [hzero]
    obtain ⟨hn, -, hb⟩ := Message.validate_controlChange.1 hv
    refine .single (addition_setInstrument c hn (Nat.zero_le _) ?_)
    rintro _ ⟨⟩
    exact hb

theorem additions_setSlurred (slurred : Bool) (h : slurred → op.slurs) (c : Channel) :
    Additions op c ((setSlurred slurred).leaves c) :=
  .single (.of_silence (.slur slurred h) rfl rfl)

theorem additions_cutSound (h : op.resets) (c : Channel) :
    Additions op c (cutSound.leaves c) :=
  leaves_check_bind (fun hv => .single (.cut h hv)) .refl

theorem additions_setMuted (muted : Bool) (h : op = .setMuted muted) (c : Channel) :
    Additions op c ((setMuted muted).leaves c) := by
  have hset : Lasts (Additions op c) (modify fun c => { c with muted }) := fun _ hc =>
    hc.tail (.of_silence (.mute h) rfl rfl)
  have hcut : Lasts (Additions op c) cutSound := fun _ hc =>
    hc.trans (additions_cutSound (by rw [h]; rfl) _)
  have hmute : Lasts (Additions op c) (setMuted muted) :=
    lasts_get.bind fun _ => compositional_lasts.ite_bind hcut fun _ => hset
  exact hmute c .refl

end Additions

/-! ## Operations -/

theorem Lasts.of_additions {α : Type} {op : Operation} {R : Channel → Channel → Prop} {c₀ : Channel}
    {m : ChannelM α} (hR : ∀ {c c' : Channel}, Addition op c c' → R c c')
    (h : ∀ c, Additions op c (m.leaves c)) : Lasts (Relation.ReflTransGen R c₀) m :=
  fun c hc => hc.trans (Relation.ReflTransGen.mono (fun _ _ hadd => hR hadd) _ _ (h c))

/-- `R` covers what an operation does, but for a replacement: an addition is a step of `R`, and a
strike is a chain of them. -/
structure Covers (op : Operation) (R : Channel → Channel → Prop) : Prop where
  add : ∀ {c c' : Channel}, Addition op c c' → R c c'
  strike : ∀ (key : Nat) (delta : Int) (duration offVelocity : Nat) (c : Channel),
    Relation.ReflTransGen R c ((ChannelM.strike key delta duration offVelocity).leaves c)

namespace Covers

variable {α : Type} {op : Operation} {R : Channel → Channel → Prop} {c₀ : Channel}

theorem lasts (hR : Covers op R) {m : ChannelM α} (h : ∀ c, Additions op c (m.leaves c)) :
    Lasts (Relation.ReflTransGen R c₀) m :=
  .of_additions hR.add h

theorem lasts_strike (hR : Covers op R) (key : Nat) (delta : Int) (duration offVelocity : Nat) :
    Lasts (Relation.ReflTransGen R c₀) (ChannelM.strike key delta duration offVelocity) :=
  fun c hc => hc.trans (hR.strike key delta duration offVelocity c)

theorem run (hR : Covers op R) (a : Action) :
    Lasts (Relation.ReflTransGen R c₀) (ChannelM.run a) := by
  cases a with
  | noteOff key velocity => exact hR.lasts (additions_noteOff key velocity)
  | play key delta duration offVelocity => exact hR.lasts_strike key delta duration offVelocity
  | setDynamic dynamic => exact hR.lasts (additions_setDynamic dynamic)
  | turnKnob number value => exact hR.lasts (additions_setController number value)
  | pressPedal number => exact hR.lasts (additions_setController number _)
  | releasePedal number => exact hR.lasts (additions_setController number _)
  | bend value => exact hR.lasts (additions_setBend value)
  | resetBend => exact hR.lasts (additions_setBend _)

theorem ticking (hR : Covers op R) : Ticking (Relation.ReflTransGen R c₀) where
  run := hR.run
  pop due h := h.tail (hR.add (.of_silence (.take due) rfl rfl))
  rest idle le h := h.tail (hR.add (.of_silence (.wait idle le) rfl rfl))

theorem tunable (hR : Covers op R) : Tunable (Lasts (Relation.ReflTransGen R c₀)) where
  toCompositional := compositional_lasts
  strike := hR.lasts_strike
  later delta action := hR.lasts (additions_later delta action)
  advance := hR.ticking.advance
  setDynamic dynamic := hR.lasts (additions_setDynamic dynamic)
  setController number value := hR.lasts (additions_setController number value)
  setOctave octave := hR.lasts (additions_setOctave octave)
  setTransposition semitones := hR.lasts (additions_setTransposition semitones)
  setInstrument program := hR.lasts (additions_setInstrument program)
  setBank bank := hR.lasts (additions_setBank bank)
  setBend bend := hR.lasts (additions_setBend bend)

/-- An operation is a chain of steps of what covers it, whether or not it fails. -/
theorem perform (hR : Covers op R)
    (hreplace : ∀ t, op = .replaceTrack t → Lasts (Relation.ReflTransGen R c₀) (replaceTrack t)) :
    Lasts (Relation.ReflTransGen R c₀) op.perform :=
  hR.tunable.perform op (fun slurred h => hR.lasts (additions_setSlurred slurred h))
    (fun muted h => hR.lasts (additions_setMuted muted h)) hreplace

end Covers

section Changes

variable {op : Operation} {c₀ : Channel}

/-! ## Strikes -/

/-- To find the velocity of a strike changes nothing but that a release may be pulled out. -/
theorem leaves_attackVelocity (key : Nat) (delta : Int) (c : Channel) :
    (attackVelocity key delta).leaves c = c ∨
      ∃ handle, c.joinedRelease? key = .ok (some handle) ∧
        (attackVelocity key delta).leaves c = c.takenBack key handle := by
  have hread : ∀ joined : Bool, Fixes id (if joined then do
      ofOption ((← get).dynamic.softened? delta) else do
      ofOption ((← get).dynamic.louder? delta) : ChannelM Nat) := by
    intro joined
    split <;> exact fixes_get.bind fun _ => fixes_ofOption _
  unfold attackVelocity
  cases hr : retractRelease key c with
  | ok joined c₁ =>
    rw [leaves_bind_of_ok _ hr]
    have hsame := hread joined c₁
    rcases of_retractRelease hr with ⟨handle, hj, rfl, -⟩ | ⟨-, rfl, -⟩
    · exact .inr ⟨handle, hj, hsame⟩
    · exact .inl hsame
  | error e c₁ =>
    rw [leaves_bind_of_error _ hr]
    unfold retractRelease at hr
    rw [get_bind] at hr
    cases hj : c.joinedRelease? key with
    | ok found =>
      rw [hj] at hr
      cases found <;> cases hr
    | error cause =>
      rw [hj] at hr
      cases hr
      exact .inl rfl

theorem changes_attackVelocity (key : Nat) (delta : Int) :
    Lasts (Changes op c₀) (attackVelocity key delta) := by
  intro c hc
  rcases leaves_attackVelocity key delta c with h | ⟨handle, hj, h⟩
  · rwa [h]
  · rw [h]
    exact hc.tail (.takeBack hj)

theorem changes_noteOn (key velocity : Nat) : Lasts (Changes op c₀) (noteOn key velocity) := by
  refine fun c hc => leaves_send_bind (fun hv => ?_) hc
  have hstruck : (setNote key (if c.slurred then .onSlurred else .on)).leaves
      (c.emit (.noteOn c.number key velocity)) = c.struck key velocity := by
    rw [emit_eq]
    rfl
  rw [hstruck]
  exact hc.tail (.strike hv)

theorem changes_later (delta : Int) (action : Action) :
    Lasts (Changes op c₀) (later delta action) :=
  .of_additions Addition.change (additions_later delta action)

theorem changes_strike (key : Nat) (delta : Int) (duration offVelocity : Nat) :
    Lasts (Changes op c₀) (strike key delta duration offVelocity) :=
  (changes_attackVelocity key delta).bind fun _ => (changes_noteOn key _).bind fun _ =>
    changes_later _ _

theorem covers_change : Covers op (Change op) where
  add := Addition.change
  strike key delta duration offVelocity c := changes_strike key delta duration offVelocity c .refl

theorem changes_setController (number value : Nat) :
    Lasts (Changes op c₀) (setController number value) :=
  covers_change.lasts (additions_setController number value)

theorem changes_setSlurred (slurred : Bool) (h : slurred → op.slurs) :
    Lasts (Changes op c₀) (setSlurred slurred) :=
  covers_change.lasts (additions_setSlurred slurred h)

theorem changes_run (a : Action) : Lasts (Changes op c₀) (run a) :=
  covers_change.run a

theorem changes_runAll (op : Operation) (actions : List Action) (c : Channel) :
    Changes op c ((runAll actions).leaves c) :=
  covers_change.ticking.runAll actions c .refl

/-! ## Replacements -/

theorem changes_restrike (h : op.resets) : Lasts (Changes op c₀) restrike := by
  intro c hc
  -- the keys are struck on the number that was read before the first of them
  have hkeys : Lasts (fun c' => c'.number = c.number ∧ Changes op c₀ c')
      (((List.range 128).filter fun key => (c.noteState key).isOn).forM fun key =>
        send (.noteOn c.number key heldVelocity)) := by
    refine compositional_lasts.forM (fun key c' hc' => ?_) _
    obtain ⟨hn, hchanges⟩ := hc'
    rw [← hn]
    refine leaves_check_bind (P := fun x => x.number = c'.number ∧ Changes op c₀ x) (fun hv => ?_)
      ⟨rfl, hchanges⟩
    rw [leaves_modify, emit_eq]
    exact ⟨number_emit c' _, hchanges.tail (.again h hv)⟩
  exact (hkeys c ⟨rfl, hc⟩).2

theorem changes_reassert (c : Channel) (h : op.resets) : Lasts (Changes op c₀) (reassert c) := by
  refine Lasts.bind ?_ fun _ => Lasts.bind ?_ fun _ => Lasts.bind ?_ fun _ => changes_restrike h
  · cases c.instrument with
    | some program => exact covers_change.lasts (additions_setInstrument program)
    | none => exact compositional_lasts.pure _
  · split
    · exact covers_change.lasts (additions_setBend _)
    · exact compositional_lasts.pure _
  · split
    · exact covers_change.lasts (additions_cutSound h)
    · exact compositional_lasts.pure _

theorem changes_replaceTrack (track : Track) (h : op = .replaceTrack track) :
    Lasts (Changes op c₀) (replaceTrack track) := by
  intro c hc
  have hresets : op.resets := by rw [h]; rfl
  by_cases hn : track.channel = c.number
  · unfold leaves
    rw [replaceTrack_of_eq hn]
    exact ((changes_reassert c hresets).bind fun _ => compositional_lasts.pure _) _
      (hc.tail (.move h hn))
  · unfold leaves
    rwa [replaceTrack_of_ne hn]

/-- An operation is a chain of changes, whether or not it fails. -/
theorem changes_perform (op : Operation) (c : Channel) : Changes op c (op.perform.leaves c) :=
  covers_change.perform changes_replaceTrack c .refl

end Changes

end ChannelM

/-! ## What a change does to the track and the clock -/

/-- The channel that a message is for. -/
def Message.channel? : Message → Option Nat
  | noteOn ch _ _ | noteOff ch _ _ | controlChange ch _ _ | programChange ch _ | pitchBend ch _ =>
    some ch
  | metaEvent _ => none

namespace Channel

variable {op : Operation} {c c' : Channel}

/-- The message is valid and for this channel. -/
def Sends (c : Channel) (m : Message) : Prop :=
  m.validate = .ok () ∧ m.channel? = some c.number

/-- From `c` to `c'` messages for the channel were written and the clock may have gone on. Only
muting and replacing write on a muted channel. -/
structure Speaks (op : Operation) (c c' : Channel) : Prop where
  track : ∃ messages, c'.track = c.said messages ∧ (∀ m ∈ messages, c.Sends m) ∧
    (c.muted → op.resets = false → messages = [])
  clock_le : c.clock ≤ c'.clock

namespace Speaks

theorem number_eq (h : Speaks op c c') : c'.number = c.number := by
  obtain ⟨⟨messages, ht, -⟩, -⟩ := h
  unfold number
  rw [ht]
  rfl

theorem of_emitAll {l : List Message} (hl : ∀ m ∈ l, c.Sends m)
    (ht : c'.track = (c.emitAll l).track) (hclock : c'.clock = c.clock) : Speaks op c c' := by
  refine ⟨⟨if c.muted then [] else l, ht.trans (track_emitAll c l), ?_, fun hm _ => if_pos hm⟩,
    Nat.le_of_eq hclock.symm⟩
  split
  · exact nofun
  · exact hl

theorem of_emit {m : Message} (hm : m.validate = .ok ()) (hn : m.channel? = some c.number)
    (ht : c'.track = (c.emit m).track) (hclock : c'.clock = c.clock) : Speaks op c c' := by
  refine of_emitAll (l := [m]) (fun m' hm' => ?_) ht hclock
  obtain rfl := List.mem_singleton.1 hm'
  exact ⟨hm, hn⟩

theorem of_silence (ht : c'.track = c.track) (hclock : c.clock ≤ c'.clock) : Speaks op c c' :=
  ⟨⟨[], ht.trans c.said_nil.symm, nofun, fun _ _ => rfl⟩, hclock⟩

end Speaks

/-- A change writes messages, or pulls out a release that a strike joins, or moves the channel to
another track. -/
theorem Change.track_cases (h : Change op c c') :
    Speaks op c c' ∨
      (∃ key handle, c.joinedRelease? key = .ok (some handle) ∧ c' = c.takenBack key handle) ∨
      ∃ track, op = .replaceTrack track ∧ track.channel = c.number ∧ c' = c.movedTo track := by
  cases h with
  | takeBack joined => exact .inr (.inl ⟨_, _, joined, rfl⟩)
  | move replaces same => exact .inr (.inr ⟨_, replaces, same, rfl⟩)
  | strike valid | release valid | control valid | bend valid | again resets valid =>
    exact .inl (.of_emit valid rfl rfl rfl)
  | @program program bank valid =>
    refine .inl (.of_emitAll (fun m hm => ⟨valid m hm, ?_⟩) rfl rfl)
    rcases List.mem_append.1 hm with hm | hm
    · obtain ⟨number, value, rfl⟩ := exists_of_mem_bankMessages hm
      rfl
    · obtain rfl := List.mem_singleton.1 hm
      rfl
  | cut resets valid =>
    refine .inl ⟨⟨[_], track_write c _, fun m hm => ?_, fun _ hop => ?_⟩, Nat.le_refl _⟩
    · obtain rfl := List.mem_singleton.1 hm
      exact ⟨valid, rfl⟩
    · rw [resets] at hop
      cases hop
  | bank | adjust | slur | promise | mute => exact .inl (.of_silence rfl (Nat.le_refl _))
  | take due => exact .inl (.of_silence rfl (Nat.le_max_left ..))
  | wait idle le => exact .inl (.of_silence rfl le)

theorem Change.number_eq (h : Change op c c') : c'.number = c.number := by
  rcases h.track_cases with h | ⟨key, handle, -, rfl⟩ | ⟨track, -, hn, rfl⟩
  · exact h.number_eq
  · rfl
  · exact hn

/-- Only a replacement lowers the clock. -/
theorem Change.clock_le (h : Change op c c') (hop : ∀ t, op ≠ .replaceTrack t) :
    c.clock ≤ c'.clock := by
  rcases h.track_cases with h | ⟨key, handle, -, rfl⟩ | ⟨track, ht, -⟩
  · exact h.clock_le
  · exact Nat.le_refl _
  · exact absurd ht (hop track)

/-- What outlasts every change that an operation makes outlasts the operation. -/
theorem Changes.preserve {P : Channel → Prop} (h : Changes op c c')
    (hP : ∀ {c c'}, Change op c c' → P c → P c') (hc : P c) : P c' := by
  induction h with
  | refl => exact hc
  | tail _ hchange ih => exact hP hchange ih

end Channel

end MidiScore
