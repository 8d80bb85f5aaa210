import MidiScore.Proofs.Channel.Mirrors
import MidiScore.Proofs.Channel.Sendable

/-!
# A replacement shifts time

A channel that is not slurring and goes on with a fresh track does from tick zero what it would have
done from its own tick on. What a listener must know stands on the new track first (`reassertion`);
from there on the two channels run in lockstep, the one as many ticks behind the other as had passed
(`Shifted`). So the new track holds what the old one would have been given, and the agenda what
would be pending, with every tick lowered by the tick of the replacement
(`advance_of_replaceTrack`).
-/

namespace MidiScore

namespace Channel

/-! ## What is written again -/

/-- The keys that are held. -/
def heldKeys (c : Channel) : List Nat :=
  (List.range 128).filter fun key => (c.noteState key).isOn

/-- The messages that tell a listener what to know of a channel: the bank, the instrument, the bend
and the held keys, or, if the channel is muted, only that all sound is cut. -/
def reassertion (c : Channel) : List Message :=
  if c.muted then [.controlChange c.number Controller.allSoundsOff 0]
  else
    c.bankMessages ++ (c.instrument.map (.programChange c.number)).toList ++
      (if c.bend ≠ bendCenter then [.pitchBend c.number c.bend] else []) ++
      c.heldKeys.map (.noteOn c.number · ChannelM.heldVelocity)

/-- The channel `c'` remembers, holds and mutes what `c` does. -/
structure Resumes (c c' : Channel) : Prop where
  memory : c'.memory = c.memory
  notes : c'.notes = c.notes
  muted : c'.muted = c.muted

variable {c c' : Channel}

namespace Resumes

theorem emitAll (h : Resumes c c') (l : List Message) : Resumes c (c'.emitAll l) := by
  refine ⟨(memory_emitAll c' l).trans h.memory, ?_, ?_⟩
  all_goals rw [emitAll_eq]
  · exact h.notes
  · exact h.muted

theorem write (h : Resumes c c') (m : Message) : Resumes c (c'.write m) :=
  ⟨h.memory, h.notes, h.muted⟩

theorem fields (h : Resumes c c') : c'.number = c.number ∧ c'.instrument = c.instrument ∧
    c'.bank = c.bank ∧ c'.bend = c.bend := by
  have hmemory := h.memory
  simp only [Channel.memory, Prod.mk.injEq] at hmemory
  tauto

end Resumes

end Channel

namespace ChannelM

open Channel

variable {c c' : Channel}

theorem setInstrument_again (hc : Sendable c) (h : Resumes c c') :
    c.instrument.forM setInstrument c' =
      .ok ⟨⟩ (c'.emitAll
        (c.bankMessages ++ (c.instrument.map (.programChange c.number)).toList)) := by
  obtain ⟨hnumber, hinstrument, hbank, -⟩ := h.fields
  cases hi : c.instrument with
  | none =>
    have hnone : c.bankMessages = [] := by
      unfold bankMessages
      cases hb : c.bank with
      | none => rfl
      | some bank => exact absurd (hc.instrument_isSome (by simp [hb])) (by simp [hi])
    rw [hnone]
    rfl
  | some program =>
    have hmessages : c'.bankMessages = c.bankMessages := by
      unfold bankMessages
      rw [hbank, hnumber]
    have hrun := setInstrument_eq (c := c') (hnumber ▸ hc.number_le) (hc.instrument_le program hi)
      (hbank ▸ hc.bank_le)
    rw [hmessages, hnumber] at hrun
    have hsame : (c'.emitAll (c.bankMessages ++ [.programChange c.number program])).instrument =
        some program := by
      rw [emitAll_eq]
      exact hinstrument.trans hi
    rw [← hsame] at hrun
    exact hrun

theorem setBend_again (hc : Sendable c) (h : Resumes c c') :
    (if c.bend ≠ bendCenter then setBend c.bend else pure () : ChannelM Unit) c' =
      .ok () (c'.emitAll (if c.bend ≠ bendCenter then [.pitchBend c.number c.bend] else [])) := by
  obtain ⟨hnumber, -, -, hbend⟩ := h.fields
  by_cases hb : c.bend ≠ bendCenter
  · rw [if_pos hb, if_pos hb]
    unfold setBend
    rw [get_bind, hnumber,
      bind_of_ok (send_of_valid (Message.validate_pitchBend.2 ⟨hc.bend_le, hc.number_le⟩) c')]
    refine congrArg (EStateM.Result.ok ()) ?_
    show { c'.emit _ with bend := c.bend } = c'.emit _
    rw [emit_eq, ← hbend]
  · rw [if_neg hb, if_neg hb]
    rfl

theorem restrike_again (hc : Sendable c) (h : Resumes c c') :
    restrike c' = .ok ⟨⟩ (c'.emitAll (c.heldKeys.map (.noteOn c.number · heldVelocity))) := by
  have hheld : c'.heldKeys = c.heldKeys := by
    unfold heldKeys noteState
    rw [h.notes]
  rw [← hheld, ← h.fields.1]
  refine forM_send (fun key hkey => ?_) c'
  have hlt : key < 128 := List.mem_range.1 (List.mem_filter.1 hkey).1
  exact Message.validate_noteOn.2
    ⟨h.fields.1 ▸ hc.number_le, Nat.le_of_lt_succ hlt, by decide⟩

/-- What a listener must know of a channel can always be written again. -/
theorem reassert_eq (hc : Sendable c) (h : Resumes c c') :
    reassert c c' = .ok ⟨⟩ { c' with track := c'.said c.reassertion } := by
  have h₁ := h.emitAll (c.bankMessages ++ (c.instrument.map (.programChange c.number)).toList)
  have h₂ := h₁.emitAll (if c.bend ≠ bendCenter then [.pitchBend c.number c.bend] else [])
  unfold reassert
  rw [bind_of_ok (setInstrument_again hc h), bind_of_ok (setBend_again hc h₁)]
  unfold reassertion
  cases hm : c.muted with
  | true =>
    have hm' : c'.muted = true := h.muted.trans hm
    rw [emitAll_of_muted hm', emitAll_of_muted hm', if_pos rfl, if_pos rfl]
    have hcut := cutSound_eq (c := c') (h.fields.1 ▸ hc.number_le)
    rw [h.fields.1] at hcut
    rw [bind_of_ok hcut, restrike_again hc (h.write _), emitAll_of_muted (c := c'.write _) hm',
      ← track_write]
    rfl
  | false =>
    have hm' : c'.muted = false := h.muted.trans hm
    rw [if_neg Bool.false_ne_true, if_neg Bool.false_ne_true]
    refine (restrike_again hc h₂).trans ?_
    rw [← emitAll_append, ← emitAll_append, emitAll_of_not_muted hm']
    simp only [List.append_assoc]

/-- A channel goes on with another track as it was, with what a listener must know written on tick
zero. -/
theorem replaceTrack_of_sendable {track : Track} (hc : Sendable c) (hn : track.channel = c.number) :
    replaceTrack track c =
      .ok c.track { c.movedTo track with track := (c.movedTo track).said c.reassertion } := by
  have hresumes : Resumes c (c.movedTo track) := by
    refine ⟨?_, rfl, rfl⟩
    show (track.channel, _) = (c.number, _)
    rw [hn]
    rfl
  exact (replaceTrack_of_eq hn).trans (bind_of_ok (reassert_eq hc hresumes))

end ChannelM

/-! ## Channels that run one behind the other -/

/-- The event `e` ticks later. -/
def Event.delayed (e : Nat) (event : Event) : Event :=
  { event with tick := event.tick + e }

namespace Channel

/-- The first channel runs `e` ticks behind the second one and does the same. Since it held `base`
and the second one `start`, they have written the same events, on their own ticks. -/
inductive Shifted (e : Nat) (base : Array (Option Event)) (start : List Event) :
    Channel → Channel → Prop where
  | intro {c : Channel} {track : Track} {clock : Nat} {pending : Agenda Action}
    {releases : Vector (Option Nat) 128} {events : List Event} (behind : c.clock = clock + e)
    (delays : c.pending.Delays e pending) (slurred : c.slurred = false)
    (channel : track.channel = c.number)
    (log : c.track.log = base ++ (events.map fun event => some (event.delayed e)).toArray)
    (log_second : track.log = ((start ++ events).map some).toArray)
    (sorted : events.Pairwise fun a b => a.tick ≤ b.tick)
    (tick_le : ∀ event ∈ events, event.tick ≤ clock) :
    Shifted e base start c { c with track, clock, pending, releases }

variable {e : Nat} {base : Array (Option Event)} {start : List Event} {c c' : Channel}

namespace Shifted

theorem behind (h : Shifted e base start c c') : c.clock = c'.clock + e := by
  obtain ⟨hclock, -, -, -, -, -, -, -⟩ := h
  exact hclock

theorem delays (h : Shifted e base start c c') : c.pending.Delays e c'.pending := by
  obtain ⟨-, hdelays, -, -, -, -, -, -⟩ := h
  exact hdelays

theorem not_slurred (h : Shifted e base start c c') : c.slurred = false := by
  obtain ⟨-, -, hs, -, -, -, -, -⟩ := h
  exact hs

theorem number_eq (h : Shifted e base start c c') : c.number = c'.number := by
  obtain ⟨-, -, -, hchannel, -, -, -, -⟩ := h
  exact hchannel.symm

/-- Both channels write a message, each at its own tick. -/
theorem write (h : Shifted e base start c c') (m : Message) :
    Shifted e base start (c.write m) (c'.write m) := by
  obtain @⟨track, clock, pending, releases, events, hclock, hdelays, hs, hchannel, hlog, hlog',
    hsorted, hle⟩ := h
  have hlog₁ : (c.write m).track.log =
      base ++ ((events ++ [Event.mk clock m]).map fun event => some (event.delayed e)).toArray := by
    show c.track.log.push _ = _
    rw [hlog, hclock, List.map_append]
    simp [Event.delayed]
  refine .intro (c := c.write m) hclock hdelays hs hchannel hlog₁ ?_ ?_ ?_
  · show track.log.push _ = _
    rw [hlog']
    simp
  · refine List.pairwise_append.2 ⟨hsorted, List.pairwise_singleton _ _, fun a ha b hb => ?_⟩
    obtain rfl := List.mem_singleton.1 hb
    exact hle a ha
  · refine List.forall_mem_append.2 ⟨hle, fun b hb => ?_⟩
    obtain rfl := List.mem_singleton.1 hb
    exact Nat.le_refl _

theorem emit (h : Shifted e base start c c') (m : Message) :
    Shifted e base start (c.emit m) (c'.emit m) := by
  have hm : c'.muted = c.muted := by obtain ⟨-, -, -, -, -, -, -, -⟩ := h; rfl
  unfold Channel.emit
  rw [hm]
  split
  · exact h
  · exact h.write m

/-- What either channel records as releases does not matter. -/
theorem setReleases (h : Shifted e base start c c') (releases releases' : Vector (Option Nat) 128) :
    Shifted e base start { c with releases } { c' with releases := releases' } := by
  obtain ⟨hclock, hdelays, hs, hchannel, hlog, hlog', hsorted, hle⟩ := h
  exact .intro (c := { c with releases }) hclock hdelays hs hchannel hlog hlog' hsorted hle

/-- What touches neither what was written and recorded, nor the clock, the agenda and the slur is
done to both. -/
theorem adjust {f : Channel → Channel} (h : Shifted e base start c c')
    (hf : ∀ c track clock pending releases,
      f { c with track, clock, pending, releases } = { f c with track, clock, pending, releases })
    (hslurred : ∀ c, (f c).slurred = c.slurred) : Shifted e base start (f c) (f c') := by
  obtain @⟨track, clock, pending, releases, events, hclock, hdelays, hs, hchannel, hlog, hlog',
    hsorted, hle⟩ := h
  have hfc := hf c c.track c.clock c.pending c.releases
  change f c = _ at hfc
  have htrack : (f c).track = c.track := by rw [hfc]
  have hclock' : (f c).clock = c.clock := by rw [hfc]
  have hpending : (f c).pending = c.pending := by rw [hfc]
  rw [hf c track clock pending releases]
  refine .intro (hclock'.trans hclock) ?_ ((hslurred c).trans hs) ?_ ?_ hlog' hsorted hle
  · rwa [hpending]
  · rwa [number, htrack]
  · rwa [htrack]

/-- The clocks move on together. -/
theorem moveOn (h : Shifted e base start c c') {clock clock' : Nat}
    {pending pending' : Agenda Action} (hle : c'.clock ≤ clock') (hclock : clock = clock' + e)
    (hdelays : pending.Delays e pending') :
    Shifted e base start { c with clock, pending }
      { c' with clock := clock', pending := pending' } := by
  obtain ⟨_, _, hs, hchannel, hlog, hlog', hsorted, htick⟩ := h
  exact .intro (c := { c with clock, pending }) hclock hdelays hs hchannel hlog hlog' hsorted
    fun event hevent => Nat.le_trans (htick event hevent) hle

end Shifted

theorem sending_shifted : ChannelM.Sending (Shifted e base start) where
  number h := h.number_eq
  slurred h := by obtain ⟨-, -, -, -, -, -, -, -⟩ := h; rfl
  controllers h := by obtain ⟨-, -, -, -, -, -, -, -⟩ := h; rfl
  emit m h := h.emit m
  release key m h := (h.emit m).setReleases _ _
  note key state h :=
    h.adjust (f := fun c => { c with notes := c.notes.setIfInBounds key state })
      (fun _ _ _ _ _ => rfl) fun _ => rfl
  dynamic dynamic h :=
    h.adjust (f := fun c => { c with dynamic }) (fun _ _ _ _ _ => rfl) fun _ => rfl
  controller controllers h :=
    h.adjust (f := fun c => { c with controllers }) (fun _ _ _ _ _ => rfl) fun _ => rfl
  bend bend h := h.adjust (f := fun c => { c with bend }) (fun _ _ _ _ _ => rfl) fun _ => rfl

end Channel

namespace ChannelM

open Channel

variable {e : Nat} {base : Array (Option Event)} {start : List Event} {c c' : Channel}

/-- Where the first run fails the second is not compared with it. -/
def ahead : Excuses where
  first _ := True
  second _ := False

theorem mirrors_attackVelocity_shifted (key : Nat) (delta : Int) :
    Mirrors ahead (Shifted e base start) Eq (attackVelocity key delta)
      (attackVelocity key delta) := by
  refine ⟨fun {c c'} h => ?_⟩
  have hdynamic : c.dynamic = c'.dynamic := by obtain ⟨-, -, -, -, -, -, -, -⟩ := h; rfl
  rw [attackVelocity_of_not_slurred h.not_slurred, attackVelocity_of_not_slurred
    ((sending_shifted.slurred h).symm.trans h.not_slurred), hdynamic]
  exact (mirrors_ofOption _).alike h

/-- What is promised is due as many ticks later on either clock. -/
theorem mirrors_later_shifted (delta : Int) (action : Action) :
    Mirrors ahead (Shifted e base start) Eq (later delta action) (later delta action) := by
  refine ⟨fun {c c'} h => ?_⟩
  have hpush : ∀ t, Shifted e base start { c with pending := c.pending.push (t + e) action }
      { c' with pending := c'.pending.push t action } :=
    fun t => h.moveOn (Nat.le_refl _) h.behind (h.delays.push t action)
  unfold later
  rw [get_bind, get_bind, h.behind]
  by_cases hd : delta ≤ 0
  · rw [if_pos hd, if_pos hd]
    exact ⟨rfl, hpush _⟩
  · rw [if_neg hd, if_neg hd]
    by_cases hfits : c'.clock + e + delta.toNat < 1 <<< 64
    · rw [Bounded.nat?_of_lt hfits, Bounded.nat?_of_lt (by omega), Nat.add_right_comm]
      exact ⟨rfl, hpush _⟩
    · rw [Bounded.nat?_eq_none_iff.2 (Nat.le_of_not_lt hfits)]
      exact Alike.of_first trivial _

theorem mirrors_strike_shifted (key : Nat) (delta : Int) (duration offVelocity : Nat) :
    Mirrors ahead (Shifted e base start) Eq (strike key delta duration offVelocity)
      (strike key delta duration offVelocity) :=
  (mirrors_attackVelocity_shifted key delta).bind_eq fun velocity =>
    (sending_shifted.noteOn key velocity).bind_eq fun _ => mirrors_later_shifted _ _

theorem lockstep_shifted (target : Nat) :
    Lockstep ahead (Shifted e base start) (target + e) target where
  due {c c' tick actions rest} h hpop := by
    obtain ⟨tick', rest', hpop', rfl, hrest⟩ := h.delays.popDue?_eq_some hpop
    refine ⟨tick', rest', hpop', h.moveOn (Nat.le_max_left ..) ?_ hrest⟩
    rw [h.behind, Nat.add_max_add_right]
  idle {c c'} h hle hpop := by
    have hle' : c'.clock ≤ target := by
      rw [h.behind] at hle
      exact Nat.le_of_add_le_add_right hle
    exact ⟨h.delays.popDue?_eq_none hpop, h.moveOn hle' rfl h.delays⟩
  run := sending_shifted.run mirrors_strike_shifted

/-- A channel that is not slurring goes on with a fresh track as many ticks ahead as have passed. -/
theorem shifted_of_replaceTrack (hc : c.Reachable) (hs : c.slurred = false) :
    ∃ c', replaceTrack { channel := c.number } c = .ok c.track c' ∧
      Shifted c.clock c.track.log (c.reassertion.map (Event.mk 0)) c c' := by
  have hdelays : c.pending.Delays c.clock (c.pending.rebase c.clock) :=
    Agenda.delays_rebase (consistent_of_reachable hc).timely
  refine ⟨_, replaceTrack_of_sendable (sendable_of_reachable hc) rfl, ?_⟩
  have hlog : c.track.log =
      c.track.log ++ (([] : List Event).map fun event => some (event.delayed c.clock)).toArray := by
    simp
  refine .intro (Nat.zero_add _).symm hdelays hs rfl hlog ?_ .nil nofun
  simp [said, Channel.movedTo, Function.comp_def]

/-- What the new track holds is in the order of its ticks. -/
theorem events_of_shifted (hstart : ∀ event ∈ start, event.tick = 0)
    (h : Shifted e base start c c') : ∃ events,
      c.track.log = base ++ (events.map fun event => some (event.delayed e)).toArray ∧
        c'.track.events = start ++ events := by
  obtain @⟨track, clock, pending, releases, events, -, -, -, -, hlog, hlog', hsorted, -⟩ := h
  have hwritten : track.written = start ++ events := by
    unfold Track.written
    rw [hlog']
    simp
  refine ⟨events, hlog, ?_⟩
  show track.events = _
  rw [Track.events_eq_written, hwritten]
  unfold Track.Ordered
  rw [hwritten]
  -- what was written again stands on tick zero, ahead of everything else
  refine List.pairwise_append.2 ⟨List.pairwise_of_forall_mem_list fun a ha b _ => ?_, hsorted,
    fun a ha b _ => ?_⟩
  all_goals
    rw [hstart a ha]
    exact Nat.zero_le _

/-- To go on with a fresh track is a shift of time. Where a channel can be advanced by some ticks,
it can be advanced by as many after it went on with a fresh track. Then the new track holds, behind
what a listener must know, the events that would have been appended to the old one, and the clock
and the agenda are what they would be, all with the ticks lowered by those that had passed; what the
channel remembers is the same. A track for another MIDI channel is refused, and nothing is changed.
-/
theorem advance_of_replaceTrack (c : Channel) (hc : c.Reachable) (hs : c.slurred = false) :
    (∀ n t c₁, advance n c = .ok t c₁ → ∃ c₂ events,
      (do let _ ← replaceTrack { channel := c.number }; advance n : ChannelM Nat) c = .ok n c₂ ∧
      c₁.track.log = c.track.log ++ (events.map fun e => some (e.delayed c.clock)).toArray ∧
      c₂.track.events = c.reassertion.map (Event.mk 0) ++ events ∧
      c₁.clock = c₂.clock + c.clock ∧
      c₁.pending.toList = c₂.pending.toList.map (fun p => (p.1 + c.clock, p.2)) ∧
      c₂ = { c₁ with
        track := c₂.track
        clock := c₂.clock
        pending := c₂.pending
        releases := c₂.releases }) ∧
    ∀ track, track.channel ≠ c.number →
      replaceTrack track c = .error (.value (.range .replacementChannel track.channel)) c := by
  refine ⟨fun n t c₁ hrun => ?_, fun track => replaceTrack_of_ne⟩
  obtain ⟨c', hreplace, hshifted⟩ := shifted_of_replaceTrack hc hs
  have hclock : c'.clock = 0 := by
    have hbehind := hshifted.behind
    omega
  have hstart : ∀ event ∈ c.reassertion.map (Event.mk 0), event.tick = 0 := by
    rintro _ hevent
    obtain ⟨m, -, rfl⟩ := List.mem_map.1 hevent
    rfl
  rw [advance_eq_bind] at hrun
  obtain ⟨target, c₀, htarget, hdrain⟩ := bind_eq_ok hrun
  obtain ⟨hfits, rfl⟩ := eq_of_ofOption htarget
  obtain ⟨hlt, rfl⟩ := Bounded.nat?_eq_some_iff.1 hfits
  rw [Nat.add_comm] at hdrain
  have halike := (lockstep_shifted n).drain hshifted (Nat.le_add_left ..)
  rw [hdrain] at halike
  have hadvance : advance n c' = Channel.drain n c' := by
    rw [advance_eq_bind, hclock, Nat.zero_add, Bounded.nat?_of_lt (by omega)]
    rfl
  cases hdrain' : Channel.drain n c' with
  | error cause c₂ =>
    rw [hdrain'] at halike
    exact halike.elim
  | ok t' c₂ =>
    rw [hdrain'] at halike
    obtain ⟨⟨-, rfl⟩, hafter⟩ := halike
    obtain ⟨events, hlog, hevents⟩ := events_of_shifted hstart hafter
    refine ⟨c₂, events, ?_, hlog, hevents, hafter.behind, hafter.delays.toList_eq, ?_⟩
    · rw [bind_of_ok hreplace, hadvance, hdrain']
    · obtain ⟨-, -, -, -, -, -, -, -⟩ := hafter
      rfl

/-- A strum that is not over, under a bend and a user bank. -/
def relayedRun : List Operation :=
  [.setBank 5, .setInstrument 40, .setBend 9000, .advance 30, .playNote .a 16 700 64,
   .playSound ⟨.chord ⟨[.c, .e, .g]⟩, .gliscando⟩ .quarter, .advance 100]

/-- The channel after `relayedRun`. One tone of the strum and all its releases are pending. -/
def relayed : Channel :=
  ({ track := { channel := 0 } } : Channel).performAll relayedRun

theorem advance_of_replaceTrack_relayed :
    relayed.Reachable ∧ relayed.slurred = false ∧
      ∃ t c₁, advance 1000 relayed = .ok t c₁ ∧ ∃ c₂ events,
        (do let _ ← replaceTrack { channel := relayed.number }; advance 1000 : ChannelM Nat)
          relayed = .ok 1000 c₂ ∧
        c₁.track.log = relayed.track.log ++
          (events.map fun e => some (e.delayed relayed.clock)).toArray ∧
        c₂.track.events = relayed.reassertion.map (Event.mk 0) ++ events ∧
        c₁.clock = c₂.clock + relayed.clock ∧
        c₁.pending.toList = c₂.pending.toList.map (fun p => (p.1 + relayed.clock, p.2)) ∧
        c₂ = { c₁ with
          track := c₂.track
          clock := c₂.clock
          pending := c₂.pending
          releases := c₂.releases } := by
  have hc : relayed.Reachable := ⟨{ channel := 0 }, false, .standard, _, relayedRun, rfl, rfl⟩
  have hs : relayed.slurred = false := by decide +kernel
  obtain ⟨t, hrun⟩ := eq_ok_of_succeeds (m := advance 1000) (c := relayed) (by decide +kernel)
  exact ⟨hc, hs, t, _, hrun, (advance_of_replaceTrack relayed hc hs).1 1000 t _ hrun⟩

end ChannelM

end MidiScore
