import MidiScore.Proofs.Channel.Changes
import MidiScore.Proofs.Channel.Kept

/-!
# What is done to the track of a muted channel

Nothing is written on a muted channel, but its track is not left alone. A strike that slurs pulls
out the release that it would join, as it does on a channel that sounds, although the strike itself
is not written (`not_track_of_muted`). Nothing else happens to the track, and nothing at all unless
the channel slurs (`track_of_muted`).
-/

namespace MidiScore

namespace Channel

variable {op : Operation} {slurs : Prop} {c₀ c c' : Channel}

/-- Only muting changes whether a channel is muted. -/
theorem Change.muted_eq (hchange : Change op c c') (hop : op.resets = false) :
    c'.muted = c.muted := by
  cases hchange with
  | mute mutes =>
    rw [mutes] at hop
    cases hop
  | _ => rfl

/-- `c` came of the muted channel `c₀` and wrote nothing, but may have pulled events out. -/
structure Thinned (slurs : Prop) (c₀ c : Channel) : Prop extends Descends slurs c₀ c where
  muted : c.muted
  pulled : ∃ handles, c.track = c₀.track.eraseAll handles ∧
    ∀ handle ∈ handles, ∃ e, c₀.track.get? handle = some e

namespace Thinned

theorem refl (h : c.slurred → slurs) (hm : c.muted) : Thinned slurs c c :=
  ⟨.refl h, hm, [], rfl, nofun⟩

theorem change (h : Thinned slurs c₀ c) (hop : op.resets = false) (hslurs : op.slurs → slurs)
    (hchange : Change op c c') : Thinned slurs c₀ c' := by
  have hreplace : ∀ t, op ≠ .replaceTrack t := by
    rintro t rfl
    cases hop
  refine ⟨h.toDescends.change hreplace hslurs hchange, (hchange.muted_eq hop).trans h.muted, ?_⟩
  obtain ⟨handles, ht, hhandles⟩ := h.pulled
  rcases hchange.track_cases with hs | ⟨key, handle, hj, rfl⟩ | ⟨track, rfl, -⟩
  · obtain ⟨⟨messages, hsaid, -, hsilent⟩, -⟩ := hs
    rw [hsilent h.muted hop, said_nil] at hsaid
    exact ⟨handles, hsaid.trans ht, hhandles⟩
  · refine ⟨handles ++ [handle], ?_, fun handle' hmem => ?_⟩
    · show c.track.erase handle = _
      rw [ht, Track.eraseAll_concat]
    · rcases List.mem_append.1 hmem with hmem | hmem
      · exact hhandles handle' hmem
      · obtain rfl := List.mem_singleton.1 hmem
        obtain ⟨-, -, -, e, hget, -⟩ := exists_of_joinedRelease? hj
        rw [ht, Track.get?_eraseAll] at hget
        split at hget
        · cases hget
        · exact ⟨e, hget⟩
  · cases hop

/-- What was pulled out was a release that a strike joins. -/
theorem joinable {handles : List Nat} {handle : Nat} {e : Event} (h : Thinned slurs c₀ c)
    (ht : c.track = c₀.track.eraseAll handles) (hmem : handle ∈ handles)
    (he : c₀.track.get? handle = some e) : slurs ∧ c₀.Joinable handle e := by
  rcases h.event handle e he with hkept | hlost
  · rw [ht, Track.get?_eraseAll, if_pos hmem] at hkept
    cases hkept
  · exact hlost

end Thinned

theorem thinned_perform (hm : c.muted) (hop : op.resets = false) :
    Thinned (c.slurred ∨ op.slurs) c (op.perform.leaves c) :=
  (ChannelM.changes_perform op c).preserve (fun hchange h => h.change hop .inr hchange)
    (.refl .inl hm)

/-- Whatever is done to a muted channel, but for muting it, letting it sound again or replacing its
track, nothing is written. Only releases may be pulled out of its track: those of keys that were
released while the channel slurred, no more than a tick ago, and only if the channel slurs or the
operation does. -/
theorem track_of_muted (c : Channel) (op : Operation) (hc : c.Reachable) (hm : c.muted)
    (hop : op.resets = false) :
    (∃ handles : List Nat, (op.perform.leaves c).track = c.track.eraseAll handles ∧
      ∀ handle ∈ handles, (c.slurred ∨ op.slurs) ∧ ∃ key tick channel velocity,
        c.track.get? handle = some ⟨tick, .noteOff channel key velocity⟩ ∧
        c.noteState key = .offSlurred ∧ c.release? key = some handle ∧ c.clock ≤ tick + 1) ∧
    (op.perform.leaves c).track.events.Sublist c.track.events ∧
    (c.slurred = false → op.slurs = false → (op.perform.leaves c).track = c.track) := by
  have hthinned := thinned_perform hm hop
  obtain ⟨handles, ht, hhandles⟩ := hthinned.pulled
  refine ⟨⟨handles, ht, fun handle hmem => ?_⟩, ?_, fun hs hslurs => ?_⟩
  · obtain ⟨e, he⟩ := hhandles handle hmem
    obtain ⟨hslurs, key, hstate, hr, hle⟩ := hthinned.joinable ht hmem he
    obtain ⟨channel, velocity, hmessage⟩ := (consistent_of_reachable hc).release key handle e hr he
    refine ⟨hslurs, key, e.tick, channel, velocity, ?_, hstate, hr, hle⟩
    rw [he, ← hmessage]
  · rw [ht]
    exact Track.events_sublist (c.track.written_eraseAll_sublist handles)
  · rcases List.eq_nil_or_concat handles with rfl | ⟨l, handle, rfl⟩
    · exact ht
    · obtain ⟨e, he⟩ := hhandles handle (by simp)
      obtain ⟨hslurred, -⟩ := hthinned.joinable ht (by simp) he
      simp [hs, hslurs] at hslurred

/-- A slurred note of the key 60, after which the channel is muted. -/
def stifledRun : List Operation :=
  [.setSlurred true, .playNote .c 0 480 96, .advance 480, .setMuted true]

/-- The channel after `stifledRun`. -/
def stifled : Channel :=
  ({ track := { channel := 0 } } : Channel).performAll stifledRun

theorem reachable_stifled : stifled.Reachable :=
  ⟨{ channel := 0 }, false, .standard, _, stifledRun, rfl, rfl⟩

/-- To strike the key again on the muted channel. -/
def restrikeStifled : Operation :=
  .playNote .c 0 480 96

theorem track_of_muted_stifled :
    stifled.Reachable ∧ stifled.muted ∧ restrikeStifled.resets = false ∧
      (∃ handles : List Nat,
        (restrikeStifled.perform.leaves stifled).track = stifled.track.eraseAll handles ∧
        ∀ handle ∈ handles, (stifled.slurred ∨ restrikeStifled.slurs) ∧
          ∃ key tick channel velocity,
            stifled.track.get? handle = some ⟨tick, .noteOff channel key velocity⟩ ∧
            stifled.noteState key = .offSlurred ∧ stifled.release? key = some handle ∧
            stifled.clock ≤ tick + 1) ∧
      (restrikeStifled.perform.leaves stifled).track.events.Sublist stifled.track.events := by
  have hm : stifled.muted := by decide +kernel
  obtain ⟨hpulled, hsub, -⟩ := track_of_muted stifled restrikeStifled reachable_stifled hm rfl
  exact ⟨reachable_stifled, hm, rfl, hpulled, hsub⟩

/-- A strike on a muted channel that slurs takes the release of the key out of the track, though the
strike that should join it is not written. -/
theorem not_track_of_muted :
    stifled.Reachable ∧ stifled.muted ∧ restrikeStifled.resets = false ∧
      ⟨480, .noteOff 0 60 96⟩ ∈ stifled.track.events ∧
      ⟨480, .noteOff 0 60 96⟩ ∉ (restrikeStifled.perform.leaves stifled).track.events ∧
      (restrikeStifled.perform.leaves stifled).track.events ≠ stifled.track.events := by
  have hbefore : ⟨480, .noteOff 0 60 96⟩ ∈ stifled.track.events :=
    Track.mem_events.2 (by decide +kernel)
  have hafter : ⟨480, .noteOff 0 60 96⟩ ∉ (restrikeStifled.perform.leaves stifled).track.events :=
    fun hmem => absurd (Track.mem_events.1 hmem) (by decide +kernel)
  refine ⟨reachable_stifled, by decide +kernel, rfl, hbefore, hafter, fun hsame => ?_⟩
  exact hafter (hsame ▸ hbefore)

end Channel

end MidiScore
