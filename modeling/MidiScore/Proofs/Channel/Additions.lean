import MidiScore.Proofs.Channel.Granularity
import MidiScore.Proofs.Channel.Kept
import MidiScore.Proofs.Channel.Recorded
import MidiScore.Proofs.Channel.Timeline

/-!
# What is added to a track

A track is only appended to, but for the releases that strikes join. Any operation but a replacement
is a chain of strikes and additions (`edits_perform`): each strike finds the last release of its key
recorded, and each addition is a change of which it is known what it does to all that strikes read.
An operation that strikes no key only adds (`grown_perform`).
-/

namespace MidiScore

/-- Whether an action strikes a key. -/
def Action.isPlay : Action → Bool
  | play .. => true
  | _ => false

/-- Whether an operation may strike a key of its own accord, or replaces the track. -/
def Operation.strikes : Operation → Bool
  | playNote .. | playSound .. | playPhrase .. | replaceTrack _ => true
  | _ => false

namespace Channel

/-- What is done in the course of an operation: an addition is made, or a key is struck. A strike
finds the last release of each key recorded. -/
inductive Edit (op : Operation) : Channel → Channel → Prop where
  | add {c c' : Channel} (addition : Addition op c c') : Edit op c c'
  | strike {c : Channel} {key : Nat} {delta : Int} {duration offVelocity : Nat}
    (recorded : Recorded c)
    (restruck : Restruck key c ((ChannelM.strike key delta duration offVelocity).leaves c)) :
    Edit op c ((ChannelM.strike key delta duration offVelocity).leaves c)

/-- `c` came of `c₀` by writing alone and, if `idle`, none of the actions that are pending strikes a
key. -/
structure Grown (idle : Prop) (c₀ c : Channel) : Prop where
  grows : c₀.track.written <+: c.track.written
  quiet : idle → ∀ p ∈ c.pending.toList, p.2.isPlay = false

variable {op : Operation} {c₀ c c' : Channel}

theorem written_prefix_emit (c : Channel) (m : Message) :
    c.track.written <+: (c.emit m).track.written := by
  unfold emit
  split
  · exact List.prefix_rfl
  · exact ⟨_, (Track.written_push ..).symm⟩

namespace Grown

variable {idle : Prop}

theorem congr (h : Grown idle c₀ c) (ht : c'.track = c.track) (hp : c'.pending = c.pending) :
    Grown idle c₀ c' :=
  ⟨ht ▸ h.grows, hp ▸ h.quiet⟩

theorem emit (h : Grown idle c₀ c) (m : Message) : Grown idle c₀ (c.emit m) :=
  ⟨h.grows.trans (c.written_prefix_emit m), by rw [ChannelM.pending_emit]; exact h.quiet⟩

theorem push {tick : Nat} {action : Action} (h : Grown idle c₀ c)
    (hquiet : idle → action.isPlay = false) :
    Grown idle c₀ { c with pending := c.pending.push tick action } := by
  refine ⟨h.grows, fun hidle p hp => ?_⟩
  rcases Agenda.mem_toList_push.1 hp with ⟨-, rfl⟩ | hp
  · exact hquiet hidle
  · exact h.quiet hidle p hp

end Grown

end Channel

open Channel

namespace ChannelM

variable {op : Operation} {c₀ c : Channel} {idle : Prop}

/-- What is recorded outlasts each link, so each of them is an edit. -/
theorem covers_edit : Covers op fun c c' => Recorded c → Edit op c c' ∧ Recorded c' where
  add h hc := ⟨.add h, hc.change h.change⟩
  strike key delta duration offVelocity c := by
    have hchanges : Changes op c ((strike key delta duration offVelocity).leaves c) :=
      changes_strike key delta duration offVelocity c .refl
    exact .single fun hc => ⟨.strike hc (restruck_strike hc key delta duration offVelocity),
      hchanges.preserve (fun hchange hc => hc.change hchange) hc⟩

theorem edits_of_chain {c c' : Channel}
    (h : Relation.ReflTransGen (fun c c' => Recorded c → Edit op c c' ∧ Recorded c') c c')
    (hc : Recorded c) : Relation.ReflTransGen (Edit op) c c' ∧ Recorded c' := by
  induction h with
  | refl => exact ⟨.refl, hc⟩
  | tail _ hlink ih =>
    obtain ⟨hedit, hrecorded⟩ := hlink ih.2
    exact ⟨ih.1.tail hedit, hrecorded⟩

/-- An operation is a chain of strikes and additions, whether or not it fails. -/
theorem edits_perform (hc : Recorded c) (hop : ∀ t, op ≠ .replaceTrack t) :
    Relation.ReflTransGen (Edit op) c (op.perform.leaves c) :=
  (edits_of_chain (covers_edit.perform (fun t ht => absurd ht (hop t)) c .refl) hc).1

theorem grown_send (m : Message) : Lasts (Grown idle c₀) (send m) :=
  fun _ h => leaves_check_bind (fun _ => h.emit m) h

theorem settable_grown : Settable (Lasts (Grown idle c₀)) where
  toCompositional := compositional_lasts
  check m c h := by rwa [leaves_check]
  send m _ _ := grown_send m
  adjust f hf c h := h.congr (hf.track c) (hf.pending c)

theorem grown_noteOff (key velocity : Nat) : Lasts (Grown idle c₀) (noteOff key velocity) := by
  intro c h
  cases hr : noteOff key velocity c with
  | ok u c' =>
    obtain ⟨-, rfl⟩ := eq_of_noteOff hr
    rw [leaves_of_ok hr]
    exact ⟨h.grows.trans (c.written_prefix_emit _), h.quiet⟩
  | error e c' =>
    obtain rfl := eq_of_noteOff_error hr
    rwa [leaves_of_error hr]

theorem grown_later (delta : Int) {action : Action} (hquiet : idle → action.isPlay = false) :
    Lasts (Grown idle c₀) (later delta action) :=
  lasts_get.bind fun _ => (compositional_lasts.ofOption _).bind fun _ _ h => h.push hquiet

/-- An action that strikes no key writes behind everything else. -/
theorem grown_run {a : Action} (ha : a.isPlay = false) : Lasts (Grown idle c₀) (run a) := by
  cases a with
  | noteOff key velocity => exact grown_noteOff key velocity
  | play key delta duration offVelocity => cases ha
  | setDynamic dynamic => exact settable_grown.setDynamic dynamic
  | turnKnob number value => exact settable_grown.setController number value
  | pressPedal number => exact settable_grown.setController number _
  | releasePedal number => exact settable_grown.setController number _
  | bend value => exact settable_grown.setBend value
  | resetBend => exact settable_grown.setBend _

theorem tickingOn_grown (hidle : idle) :
    TickingOn (fun a => a.isPlay = false) (Grown idle c₀) where
  owed h := h.quiet hidle
  run _ ha := grown_run ha
  pop hpop h := by
    refine ⟨h.grows, fun _ p hp => h.quiet hidle p ?_⟩
    rw [Agenda.toList_of_popDue? hpop]
    exact List.mem_append_right _ hp
  rest _ _ h := h.congr rfl rfl

theorem grown_cutSound : Lasts (Grown idle c₀) cutSound :=
  lasts_get.bind fun _ _ h => leaves_check_bind
    (fun _ => ⟨h.grows.trans ⟨_, (Track.written_push ..).symm⟩, h.quiet⟩) h

/-- What strikes no key writes behind everything else, whether or not it fails. If it advances the
clock, no strike may be pending. -/
theorem grown_perform (hop : op.strikes = false) :
    Lasts (Grown op.advances c₀) op.perform := by
  have hK : Compositional (Lasts (Grown op.advances c₀)) := compositional_lasts
  have hset : Settable (Lasts (Grown op.advances c₀)) := settable_grown
  cases op with
  | advance ticks => exact hK.map ((tickingOn_grown rfl).advance ticks)
  | advanceBeat beat => exact hK.map (hK.bind hK.get fun _ => (tickingOn_grown rfl).advance _)
  | leapTo tick => exact hK.map ((tickingOn_grown rfl).leapTo tick)
  | follow directive =>
    exact hK.map (hK.bind hK.get fun _ => hK.bind (hK.ofOption _) fun _ =>
      (tickingOn_grown rfl).leapTo _)
  | flush => exact hK.map (hK.flush_of_leapTo (tickingOn_grown rfl).leapTo)
  | later delta action => exact hK.acknowledge (grown_later delta nofun)
  | laterBeat beat action => exact hK.acknowledge (hK.bind hK.get fun _ => grown_later _ nofun)
  | setDynamic dynamic => exact hK.acknowledge (hset.setDynamic dynamic)
  | setOctave octaves => exact hK.acknowledge (hset.setOctave octaves)
  | setTransposition semitones => exact hK.acknowledge (hset.setTransposition semitones)
  | setSlurred slurred => exact hK.acknowledge fun _ h => h.congr rfl rfl
  | setInstrument program => exact hK.acknowledge (hset.setInstrument program)
  | setBank bank => exact hK.acknowledge (hset.setBank bank)
  | setMuted muted =>
    exact hK.acknowledge (hK.bind hK.get fun _ => hK.ite_bind grown_cutSound
      fun _ _ h => h.congr rfl rfl)
  | setBend value => exact hK.acknowledge (hset.setBend value)
  | resetBend => exact hK.acknowledge (hset.setBend _)
  | setController number value => exact hK.acknowledge (hset.setController number value)
  | pressPedal number => exact hK.acknowledge (hset.setController number _)
  | releasePedal number => exact hK.acknowledge (hset.setController number _)
  | playRamp ramp =>
    refine hK.acknowledge (hK.bind hK.get fun _ => hK.bind (hset.setDynamic _) fun _ =>
      hK.forM (fun step => ?_) _)
    unfold promiseDynamic
    split
    · exact grown_later _ nofun
    · exact hK.throw _
  | _ => cases hop

/-- What a listener must know of a channel is written behind everything else. -/
theorem grown_reassert (c : Channel) : Lasts (Grown idle c₀) (reassert c) := by
  have hrestrike : Lasts (Grown idle c₀) restrike :=
    lasts_get.bind fun _ => compositional_lasts.forM (fun _ => grown_send _) _
  refine Lasts.bind ?_ fun _ => Lasts.bind ?_ fun _ => Lasts.bind ?_ fun _ => hrestrike
  · cases c.instrument with
    | some program => exact settable_grown.setInstrument program
    | none => exact compositional_lasts.pure _
  · split
    · exact settable_grown.setBend _
    · exact compositional_lasts.pure _
  · split
    · exact grown_cutSound
    · exact compositional_lasts.pure _

/-- A replacement hands out the old track and writes on the new one. -/
theorem replaceTrack_of_reachable {track : Track} (h : c.Reachable)
    (hn : track.channel = c.number) :
    ∃ c', replaceTrack track c = .ok c.track c' ∧ track.written <+: c'.track.written := by
  have hgrown : Grown False (c.movedTo track) ((replaceTrack track).leaves c) := by
    unfold leaves
    rw [replaceTrack_of_eq hn]
    exact ((grown_reassert c).bind fun _ => compositional_lasts.pure _) _
      ⟨List.prefix_rfl, False.elim⟩
  have hok := replaceTrack_of_sendable (sendable_of_reachable h) hn
  rw [leaves_of_ok hok] at hgrown
  exact ⟨_, hok, hgrown.grows⟩

end ChannelM

namespace Channel

open ChannelM

variable {c : Channel}

/-- A track is only appended to, but for releases that are joined. Let the track of a channel have
been empty at first, as were the tracks that replaced it. What is recorded as the release of a key
finds a release of that key on the channel, the last one in the track. So a strike of a key, at once
or when it falls due, pulls out at most one event, a release of the key that lies no more than a
tick back while the channel slurs, and writes at most one, a note-on of the key. No other action
pulls an event out, nor does an operation that strikes no key and runs no strike.

This is also true in the course of an operation, whether or not it fails: wherever its changes lead,
the last releases are recorded and a strike does no more than this; and any operation but a
replacement is a chain of such strikes and of changes that write behind everything else. All that
was written before stays under its handle, unless it is a release that the operation can join. A
replacement hands out the old track as it was and adds to the new one. -/
theorem appendOnly_of_reachableFresh (c : Channel) (h : c.ReachableFresh) :
    c.track.events = c.track.written ∧
    (∀ key handle, c.release? key = some handle →
      (∃ tick velocity, c.track.get? handle = some ⟨tick, .noteOff c.number key velocity⟩ ∧
        (c.track.events.filter (·.message.releases key)).getLast? =
          some ⟨tick, .noteOff c.number key velocity⟩) ∧
      ∀ handle' e, c.track.get? handle' = some e → e.message.releases key → handle' ≤ handle) ∧
    (∀ p delta duration offVelocity,
      (c.soundingKey p = none ∧ (playNote p delta duration offVelocity).leaves c = c) ∨
        ∃ key, c.soundingKey p = some key ∧
          Restruck key c ((playNote p delta duration offVelocity).leaves c)) ∧
    (∀ key delta duration offVelocity,
      Restruck key c ((run (.play key delta duration offVelocity)).leaves c)) ∧
    (∀ a, a.isPlay = false → c.track.written <+: ((run a).leaves c).track.written) ∧
    (∀ op c', Changes op c c' → Recorded c' ∧ ∀ key delta duration offVelocity,
      Restruck key c' ((ChannelM.strike key delta duration offVelocity).leaves c')) ∧
    (∀ op : Operation, (∀ track, op ≠ .replaceTrack track) →
      Relation.ReflTransGen (Edit op) c (op.perform.leaves c)) ∧
    (∀ op : Operation, (∀ track, op ≠ .replaceTrack track) →
      ∀ handle e, c.track.get? handle = some e →
        (op.perform.leaves c).track.get? handle = some e ∨
          (c.slurred ∨ op.slurs) ∧ ∃ key velocity, e.message = .noteOff c.number key velocity ∧
            c.noteState key = .offSlurred ∧ c.release? key = some handle ∧ c.clock ≤ e.tick + 1) ∧
    (∀ op : Operation, op.strikes = false →
      (op.advances → ∀ p ∈ c.pending.toList, p.2.isPlay = false) →
      c.track.written <+: (op.perform.leaves c).track.written) ∧
    (∀ track, track.channel = c.number →
      ∃ c', replaceTrack track c = .ok c.track c' ∧ track.written <+: c'.track.written) ∧
    ∀ track, track.channel ≠ c.number → (replaceTrack track).leaves c = c := by
  have hrecorded := recorded_of_reachable h.reachable
  have hevents := (paced_of_reachableFresh h).events_eq
  refine ⟨hevents, fun key handle hr => ⟨?_, hrecorded.last key handle hr⟩,
    restruck_playNote hrecorded, restruck_strike hrecorded, fun a ha => ?_, fun op c' hc' => ?_,
    fun op hop => edits_perform hrecorded hop, fun op hop handle e he => ?_,
    fun op hop hquiet => (grown_perform hop c ⟨List.prefix_rfl, hquiet⟩).grows,
    fun track hn => replaceTrack_of_reachable h.reachable hn,
    fun track hn => leaves_of_error (replaceTrack_of_ne hn)⟩
  · obtain ⟨tick, velocity, hget⟩ := hrecorded.found key handle hr
    exact ⟨tick, velocity, hget, by rw [hevents, hrecorded.getLast? hr, hget]⟩
  · have hgrown : Grown False c ((run a).leaves c) :=
      grown_run ha c ⟨List.prefix_rfl, False.elim⟩
    exact hgrown.grows
  · have hrecorded' := hc'.preserve (fun hchange hc => hc.change hchange) hrecorded
    exact ⟨hrecorded', restruck_strike hrecorded'⟩
  · rcases (descends_perform c hop).event handle e he with hkept | ⟨hslurs, key, hstate, hr, hle⟩
    · exact .inl hkept
    · obtain ⟨tick, velocity, hget⟩ := hrecorded.found key handle hr
      obtain rfl := Option.some.inj (he.symm.trans hget)
      exact .inr ⟨hslurs, key, velocity, rfl, hstate, hr, hle⟩

/-- A key that is struck again as soon as it is released, on a track that replaced another, and one
that is released while the channel is muted. -/
def stitchedRun : List Operation :=
  [.setSlurred true, .playNote .c 0 480 96, .playNote .e 0 485 96, .advance 100,
   .replaceTrack { channel := 0 }, .advance 380, .playNote .c 0 10 96, .setMuted true, .advance 5,
   .setMuted false, .advance 5, .later 1 (.play 60 0 20 64)]

/-- The channel after `stitchedRun`. The key is released again, and a strike of it is promised. -/
def stitched : Channel :=
  ({ track := { channel := 0 } } : Channel).performAll stitchedRun

theorem reachableFresh_stitched : stitched.ReachableFresh := by
  refine ⟨{ channel := 0 }, false, .standard, _, stitchedRun, rfl, fun t ht => ?_, rfl, rfl⟩
  obtain rfl : t = { channel := 0 } := by simpa [stitchedRun] using ht
  rfl

theorem appendOnly_of_reachableFresh_stitched :
    stitched.ReachableFresh ∧ stitched.release? 60 = some 5 ∧ stitched.release? 64 = none ∧
      stitched.track.events = stitched.track.written ∧
      (∃ tick velocity,
        stitched.track.get? 5 = some ⟨tick, .noteOff stitched.number 60 velocity⟩ ∧
          (stitched.track.events.filter (·.message.releases 60)).getLast? =
            some ⟨tick, .noteOff stitched.number 60 velocity⟩) ∧
      (∀ handle e, stitched.track.get? handle = some e → e.message.releases 60 → handle ≤ 5) ∧
      Restruck 60 stitched ((run (.play 60 0 20 64)).leaves stitched) ∧
      ¬ stitched.track.written <+: ((run (.play 60 0 20 64)).leaves stitched).track.written ∧
      stitched.track.written <+: ((run (.noteOff 64 0)).leaves stitched).track.written ∧
      Recorded ((Operation.advance 30).perform.leaves stitched) ∧
      Relation.ReflTransGen (Edit (.advance 30)) stitched
        ((Operation.advance 30).perform.leaves stitched) ∧
      ((Operation.advance 30).perform.leaves stitched).track.get? 5 = none ∧
      (∀ e, stitched.track.get? 5 = some e → stitched.slurred ∧ stitched.clock ≤ e.tick + 1 ∧
        ∃ key velocity, e.message = .noteOff stitched.number key velocity) ∧
      stitched.track.written <+: ((Operation.setBend 0).perform.leaves stitched).track.written ∧
      ∃ c', replaceTrack { channel := 0 } stitched = .ok stitched.track c' := by
  obtain ⟨hevents, hrecorded, -, hstruck, haction, hcourse, hchain, hkept, hadds, hreplace, -⟩ :=
    appendOnly_of_reachableFresh stitched reachableFresh_stitched
  have hnumber : stitched.number = 0 := by decide +kernel
  have hrelease : stitched.release? 60 = some 5 := by decide +kernel
  have hsixty := hrecorded 60 5 hrelease
  have hpulled : ((Operation.advance 30).perform.leaves stitched).track.get? 5 = none := by
    decide +kernel
  obtain ⟨c', hok, -⟩ := hreplace { channel := 0 } hnumber.symm
  refine ⟨reachableFresh_stitched, hrelease, by decide +kernel, hevents, hsixty.1, hsixty.2,
    hstruck 60 0 20 64, by decide +kernel, haction _ rfl, (hcourse _ _ (changes_perform _ _)).1,
    hchain _ nofun, hpulled, fun e he => ?_, hadds _ rfl nofun, c', hok⟩
  rcases hkept (.advance 30) nofun 5 e he with hget | ⟨hslurs, key, velocity, hoff, -, -, hle⟩
  · rw [hpulled] at hget
    cases hget
  · exact ⟨hslurs.resolve_right Bool.false_ne_true, hle, key, velocity, hoff⟩

end Channel

end MidiScore
