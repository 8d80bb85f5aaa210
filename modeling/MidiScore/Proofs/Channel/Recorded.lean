import MidiScore.Proofs.Channel.Parted
import MidiScore.Proofs.Channel.Reachable

/-!
# Releases that are recorded

A channel records for each key the handle of the release that it last wrote. The handle is never
stale: it finds a release of that key, and no release of the key was written behind it
(`recorded_of_reachable`). So the only event that a strike pulls out of the track is a release of
the key that is struck (`restruck_strike`).
-/

namespace MidiScore

namespace Channel

/-- What is recorded as the release of a key is the last release of the key in the track. -/
structure Recorded (c : Channel) : Prop where
  found : ∀ key handle, c.release? key = some handle →
    ∃ tick velocity, c.track.get? handle = some ⟨tick, .noteOff c.number key velocity⟩
  last : ∀ key handle, c.release? key = some handle →
    ∀ handle' e, c.track.get? handle' = some e → e.message.releases key → handle' ≤ handle

variable {op : Operation} {c c' : Channel} {key velocity : Nat}

namespace Recorded

theorem of_fresh (h : c.releases = .replicate 128 none) : Recorded c := by
  refine ⟨fun key handle hr => ?_, fun key handle hr => ?_⟩
  all_goals
    rw [release?_of_replicate h] at hr
    cases hr

theorem congr (h : Recorded c) (ht : c'.track = c.track) (hr : c'.releases = c.releases) :
    Recorded c' := by
  have hrel : ∀ key, c'.release? key = c.release? key := fun key => by
    unfold release?
    rw [hr]
  refine ⟨fun key handle => ?_, fun key handle => ?_⟩
  · rw [hrel, number, ht]
    exact h.found key handle
  · rw [hrel, ht]
    exact h.last key handle

theorem write {m : Message} (h : Recorded c) (hm : m.isNoteOff = false) :
    Recorded (c.write m) := by
  refine ⟨fun key handle hr => ?_, fun key handle hr handle' e he hk => ?_⟩
  · obtain ⟨tick, velocity, hget⟩ := h.found key handle hr
    refine ⟨tick, velocity, ?_⟩
    show (c.track.push _).get? handle = _
    rwa [Track.get?_push, if_neg (Nat.ne_of_lt (Track.lt_of_get? hget))]
  · rcases of_get?_write he with ⟨-, rfl⟩ | ⟨-, he⟩
    · rw [Message.not_releases hm] at hk
      cases hk
    · exact h.last key handle hr handle' e he hk

theorem emit {m : Message} (h : Recorded c) (hm : m.isNoteOff = false) : Recorded (c.emit m) := by
  unfold Channel.emit
  split
  · exact h
  · exact h.write hm

theorem emitAll {l : List Message} (h : Recorded c) (hl : ∀ m ∈ l, m.isNoteOff = false) :
    Recorded (c.emitAll l) := by
  induction l generalizing c with
  | nil => exact h
  | cons m rest ih =>
    obtain ⟨hm, hrest⟩ := List.forall_mem_cons.1 hl
    exact ih (h.emit hm) hrest

/-- A release that is written is recorded, or none is recorded because the channel is muted. -/
theorem released (h : Recorded c) (key velocity : Nat) : Recorded (c.released key velocity) := by
  cases hm : c.muted with
  | true =>
    have hold : ∀ k handle, (c.released key velocity).release? k = some handle →
        c.release? k = some handle := by
      intro k handle hr
      rcases of_release?_released hr with ⟨-, hr⟩ | ⟨-, hmuted, -⟩
      · exact hr
      · rw [hm] at hmuted
        cases hmuted
    have ht : (c.released key velocity).track = c.track := by
      unfold Channel.released Channel.emit
      rw [if_pos hm]
    refine ⟨fun k handle hr => ?_, fun k handle hr => ?_⟩
    · rw [number, ht]
      exact h.found k handle (hold k handle hr)
    · rw [ht]
      exact h.last k handle (hold k handle hr)
  | false =>
    have ht : (c.released key velocity).track =
        (c.write (.noteOff c.number key velocity)).track := by
      unfold Channel.released
      rw [emit_of_not_muted hm]
    have hn : (c.released key velocity).number = c.number := by
      rw [number, ht]
      rfl
    refine ⟨fun k handle hr => ?_, fun k handle hr handle' e he hk => ?_⟩
    · rw [ht, hn]
      show ∃ tick velocity', (c.track.push _).get? handle = _
      rw [Track.get?_push]
      rcases of_release?_released hr with ⟨-, hr⟩ | ⟨rfl, -, rfl⟩
      · obtain ⟨tick, velocity', hget⟩ := h.found k handle hr
        rw [if_neg (Nat.ne_of_lt (Track.lt_of_get? hget))]
        exact ⟨tick, velocity', hget⟩
      · rw [if_pos rfl]
        exact ⟨c.clock, velocity, rfl⟩
    · rw [ht] at he
      rcases of_release?_released hr with ⟨hne, hr⟩ | ⟨rfl, -, rfl⟩
      · rcases of_get?_write he with ⟨-, rfl⟩ | ⟨-, he⟩
        · exact absurd (by simpa [Message.releases] using hk) hne.symm
        · exact h.last k handle hr handle' e he hk
      · rcases of_get?_write he with ⟨rfl, -⟩ | ⟨hlt, -⟩ <;> omega

/-- What is recorded for two keys are two events, so no other release is lost with one. -/
theorem takenBack {pulled : Nat} (h : Recorded c) (hr : c.release? key = some pulled) :
    Recorded (c.takenBack key pulled) := by
  refine ⟨fun k handle hk => ?_, fun k handle hk handle' e he => ?_⟩
  · obtain ⟨hne, hk⟩ := of_release?_takenBack hk
    obtain ⟨tick, velocity, hget⟩ := h.found k handle hk
    obtain ⟨tick', velocity', hget'⟩ := h.found key pulled hr
    refine ⟨tick, velocity, ?_⟩
    show (c.track.erase pulled).get? handle = _
    rw [Track.get?_erase, if_neg, hget]
    · rfl
    · rintro rfl
      rw [hget] at hget'
      cases hget'
      exact hne rfl
  · change (c.track.erase pulled).get? handle' = some e at he
    rw [Track.get?_erase] at he
    split at he
    · cases he
    · exact h.last k handle (of_release?_takenBack hk).2 handle' e he

theorem change (h : Recorded c) (hchange : Change op c c') : Recorded c' := by
  have hsent : ∀ l, (∀ m ∈ l, m.isNoteOff = false) →
      Recorded { c with track := (c.emitAll l).track } := fun l hl => by
    rw [← emitAll_eq]
    exact h.emitAll hl
  have hone : ∀ m : Message, m.isNoteOff = false →
      Recorded { c with track := (c.emit m).track } := fun m hm =>
    hsent [m] fun m' hm' => by rwa [List.mem_singleton.1 hm']
  cases hchange with
  | strike | control | bend | again => exact (hone _ rfl).congr rfl rfl
  | release => exact h.released _ _
  | takeBack joined => exact h.takenBack (exists_of_joinedRelease? joined).2.2.1
  | @program program bank valid =>
    refine (hsent _ fun m hm => ?_).congr rfl rfl
    rcases List.mem_append.1 hm with hm | hm
    · obtain ⟨number, value, rfl⟩ := exists_of_mem_bankMessages hm
      rfl
    · rw [List.mem_singleton.1 hm]
      rfl
  | bank | adjust | slur | mute | promise | take | wait => exact h.congr rfl rfl
  | cut => exact h.write rfl
  | move => exact .of_fresh rfl

end Recorded

theorem recorded_of_reachable (h : c.Reachable) : Recorded c :=
  h.induction (fun _ _ _ _ => .of_fresh rfl) fun hchange hc => hc.change hchange

/-- The release that is recorded for a key is the last one of the key in the track. -/
theorem Recorded.getLast? (h : Recorded c) {key handle : Nat}
    (hr : c.release? key = some handle) :
    (c.track.written.filter (·.message.releases key)).getLast? = c.track.get? handle := by
  obtain ⟨tick, velocity, hget⟩ := h.found key handle hr
  rw [hget]
  exact Track.getLast?_filter_written hget (decide_eq_true rfl) (h.last key handle hr)

/-! ## Strikes -/

/-- What a strike of `key` has done to the track of `c`. It has pulled out at most one event, and
then a release of the key that lay no more than a tick back while the channel slurred; and it has
written at most one event, a note-on of the key. -/
def Restruck (key : Nat) (c c' : Channel) : Prop :=
  ∃ before after : List Event, ∃ off on : Option Event,
    c.track.written = before ++ off.toList ++ after ∧
    c'.track.written = before ++ after ++ on.toList ∧
    (∀ e ∈ off, c.slurred ∧ c.clock ≤ e.tick + 1 ∧
      ∃ velocity, e.message = .noteOff c.number key velocity) ∧
    ∀ e ∈ on, e.tick = c.clock ∧ ∃ velocity, e.message = .noteOn c.number key velocity

end Channel

open Channel

namespace ChannelM

variable {c c' c₀ : Channel} {key velocity : Nat}

theorem fixes_track_after (duration : Nat) (action : Action) :
    Fixes Channel.track (after duration action) :=
  fixes_get.bind fun _ => (fixes_ofOption _).bind fun _ => fixes_modify fun _ => rfl

/-- To write a note-on is to write it behind everything else, or to fail and write nothing. -/
theorem written_noteOn (key velocity : Nat) (c : Channel) :
    ∃ on : Option Event,
      ((noteOn key velocity).leaves c).track.written = c.track.written ++ on.toList ∧
      ∀ e ∈ on, e.tick = c.clock ∧ e.message = .noteOn c.number key velocity := by
  refine leaves_send_bind (P := fun c' => ∃ on : Option Event,
      c'.track.written = c.track.written ++ on.toList ∧
      ∀ e ∈ on, e.tick = c.clock ∧ e.message = .noteOn c.number key velocity)
    (fun _ => ?_) ⟨none, by simp, nofun⟩
  show ∃ on : Option Event, (c.emit _).track.written = _ ∧ _
  unfold Channel.emit
  split
  · exact ⟨none, by simp, nofun⟩
  · refine ⟨some ⟨c.clock, .noteOn c.number key velocity⟩, Track.written_push .., ?_⟩
    rintro _ ⟨⟩
    exact ⟨rfl, rfl⟩

/-- To find the velocity of a strike pulls out at most the release of the key that is recorded. -/
theorem written_attackVelocity (h : Recorded c) (key : Nat) (delta : Int) :
    ∃ before after : List Event, ∃ off : Option Event,
      c.track.written = before ++ off.toList ++ after ∧
      ((attackVelocity key delta).leaves c).track.written = before ++ after ∧
      ∀ e ∈ off, c.slurred ∧ c.clock ≤ e.tick + 1 ∧
        ∃ velocity, e.message = .noteOff c.number key velocity := by
  rcases leaves_attackVelocity key delta c with hc | ⟨handle, hj, hc⟩
  · rw [hc]
    exact ⟨c.track.written, [], none, by simp, by simp, nofun⟩
  · obtain ⟨hs, -, hr, e, hget, hle⟩ := exists_of_joinedRelease? hj
    obtain ⟨tick, velocity, hoff⟩ := h.found key handle hr
    obtain rfl := Option.some.inj (hget.symm.trans hoff)
    obtain ⟨before, after, hw, hw'⟩ := Track.exists_written_erase hget
    rw [hc]
    refine ⟨before, after, some _, by simpa using hw, hw', ?_⟩
    rintro _ ⟨⟩
    exact ⟨hs, hle, velocity, rfl⟩

/-- A strike pulls out at most a release of its key and writes at most a note-on of it, whether or
not it fails. -/
theorem restruck_strike (h : Recorded c) (key : Nat) (delta : Int) (duration offVelocity : Nat) :
    Restruck key c ((strike key delta duration offVelocity).leaves c) := by
  obtain ⟨before, after, off, hw, hattack, hoff⟩ := written_attackVelocity h key delta
  unfold strike
  cases hr : attackVelocity key delta c with
  | error cause c₁ =>
    rw [leaves_of_error hr] at hattack
    rw [leaves_bind_of_error _ hr]
    exact ⟨before, after, off, none, hw, by simpa using hattack, hoff, nofun⟩
  | ok velocity c₁ =>
    rw [leaves_of_ok hr] at hattack
    rw [leaves_bind_of_ok _ hr]
    obtain ⟨on, hon, hnote⟩ := written_noteOn key velocity c₁
    have hnumber : c₁.number = c.number := (aloof_number.fixes_attackVelocity key delta).of_ok hr
    have hclock : c₁.clock = c.clock := (aloof_clock.fixes_attackVelocity key delta).of_ok hr
    rw [hclock, hnumber] at hnote
    refine ⟨before, after, off, on, hw, ?_, hoff, fun e he => ⟨(hnote e he).1, velocity,
      (hnote e he).2⟩⟩
    rw [leaves_bind_of_fixes fun _ => fixes_track_after duration _, hon, hattack]

/-- A strike of a pitch is a strike of the key that sounds for it. A rest changes nothing. -/
theorem restruck_playNote (h : Recorded c) (p : Pitch) (delta : Int) (duration offVelocity : Nat) :
    (c.soundingKey p = none ∧ (playNote p delta duration offVelocity).leaves c = c) ∨
      ∃ key, c.soundingKey p = some key ∧
        Restruck key c ((playNote p delta duration offVelocity).leaves c) := by
  unfold playNote
  rw [leaves_get_bind]
  cases hkey : c.soundingKey p with
  | none => exact .inl ⟨rfl, rfl⟩
  | some key => exact .inr ⟨key, rfl, restruck_strike h key delta duration offVelocity⟩

end ChannelM

end MidiScore
