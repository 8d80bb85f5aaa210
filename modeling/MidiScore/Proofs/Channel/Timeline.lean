import MidiScore.Proofs.Channel.Changes
import MidiScore.Proofs.Channel.Shifted

/-!
# The time of a channel

Nothing that a channel has promised is overdue and nothing that it has written lies ahead of its
clock, so a track that was empty at first is written in the order of its ticks (`Paced`). Only a
replacement sets the clock back. It finds every bucket of the agenda at the clock or later, so that
bringing the agenda forward neither clips a tick nor merges two buckets
(`timeline_of_reachableFresh`).
-/

namespace MidiScore

namespace Channel

/-- The track was written in the order of its ticks, and nothing in it lies ahead of the clock. -/
structure Paced (c : Channel) : Prop where
  ordered : c.track.Ordered
  tick_le : ∀ e ∈ c.track.written, e.tick ≤ c.clock

variable {op : Operation} {c c' : Channel}

namespace Paced

theorem of_written_eq_nil (h : c.track.written = []) : Paced c := by
  refine ⟨?_, fun e he => ?_⟩
  · unfold Track.Ordered
    rw [h]
    exact .nil
  · rw [h] at he
    cases he

/-- What is said now is written behind everything else. -/
theorem speaks (h : Paced c) (hs : Speaks op c c') : Paced c' := by
  obtain ⟨⟨messages, ht, -⟩, hclock⟩ := hs
  have hw : c'.track.written = c.track.written ++ messages.map (Event.mk c.clock) := by
    rw [ht, written_said]
  refine ⟨h.ordered.append h.tick_le hw, fun e he => ?_⟩
  rw [hw] at he
  rcases List.mem_append.1 he with he | he
  · exact Nat.le_trans (h.tick_le e he) hclock
  · obtain ⟨m, -, rfl⟩ := List.mem_map.1 he
    exact hclock

theorem takenBack (h : Paced c) (key handle : Nat) : Paced (c.takenBack key handle) := by
  have hsub : (c.track.erase handle).written.Sublist c.track.written :=
    c.track.written_erase_sublist handle
  exact ⟨h.ordered.sublist hsub, fun e he => h.tick_le e (hsub.mem he)⟩

theorem change (h : Paced c) (hfresh : ∀ t, op = .replaceTrack t → t.written = [])
    (hchange : Change op c c') : Paced c' := by
  rcases hchange.track_cases with hs | ⟨key, handle, -, rfl⟩ | ⟨track, rfl, -, rfl⟩
  · exact h.speaks hs
  · exact h.takenBack key handle
  · exact .of_written_eq_nil (hfresh track rfl)

theorem events_eq (h : Paced c) : c.track.events = c.track.written :=
  Track.events_eq_written h.ordered

end Paced

theorem paced_of_reachableFresh (h : c.ReachableFresh) : Paced c :=
  h.induction (fun _ _ _ hw => .of_written_eq_nil hw) fun hfresh hchange hc =>
    hc.change hfresh hchange

/-- Only a replacement lowers the clock, also if it fails. -/
theorem clock_le_perform (hop : ∀ track, op ≠ .replaceTrack track) (c : Channel) :
    c.clock ≤ (op.perform.leaves c).clock :=
  (ChannelM.changes_perform op c).preserve (P := fun c' => c.clock ≤ c'.clock)
    (fun hchange hc => Nat.le_trans hc (hchange.clock_le hop)) (Nat.le_refl _)

/-- The time of a channel whose track was empty at first, as were the tracks that replaced it. What
is pending is due at the clock or later, in buckets that are not empty, and what is in the track was
written at the clock or earlier, in the order in which it is listed. No operation but a replacement
lowers the clock. A replacement sets it to zero and brings the agenda forward by what has passed: no
tick is clipped at zero and every bucket stays one of its own. -/
theorem timeline_of_reachableFresh (c : Channel) (h : c.ReachableFresh) :
    (∀ p ∈ c.pending.toList, c.clock ≤ p.1) ∧
    (∀ b ∈ c.pending.buckets, b.2 ≠ []) ∧
    (∀ e ∈ c.track.events, e.tick ≤ c.clock) ∧
    (c.track.written.Pairwise fun a b => a.tick ≤ b.tick) ∧
    c.track.events = c.track.written ∧
    (∀ op : Operation, (∀ track, op ≠ .replaceTrack track) →
      c.clock ≤ (op.perform.leaves c).clock) ∧
    ∀ track, track.channel = c.number →
      (∀ b ∈ c.pending.buckets, c.clock ≤ b.1) ∧
      (c.pending.rebase c.clock).buckets = c.pending.buckets.map (fun b => (b.1 - c.clock, b.2)) ∧
      ((Operation.replaceTrack track).perform.leaves c).pending = c.pending.rebase c.clock ∧
      ((Operation.replaceTrack track).perform.leaves c).clock = 0 := by
  have htimely := (consistent_of_reachable h.reachable).timely
  have hpaced := paced_of_reachableFresh h
  refine ⟨htimely, c.pending.filled, ?_, hpaced.ordered, hpaced.events_eq,
    fun op hop => clock_le_perform hop c, fun track hn => ?_⟩
  · rw [hpaced.events_eq]
    exact hpaced.tick_le
  · have hreplace : ((Operation.replaceTrack track).perform.leaves c) = _ :=
      ChannelM.leaves_of_ok (ChannelM.bind_of_ok
        (ChannelM.replaceTrack_of_sendable (sendable_of_reachable h.reachable) hn))
    refine ⟨Agenda.le_of_mem_buckets htimely, Agenda.buckets_rebase htimely, ?_, ?_⟩
    all_goals rw [hreplace]
    all_goals rfl

/-- A release that is joined, one that cannot be sent and stops the clock, a bend that is promised
for a tick that has passed, and a replacement while two keys are held. -/
def restlessRun : List Operation :=
  [.setSlurred true, .playNote .c 0 480 96, .advance 480, .playNote .c 0 100 200, .advance 1000,
   .playNote .e 0 50 64, .later (-5) (.bend 9000), .advance 20, .replaceTrack { channel := 0 },
   .advance 10, .playNote .g 0 700 64, .playNote .a 0 700 64]

/-- The channel after `restlessRun`. -/
def restless : Channel :=
  ({ track := { channel := 0 } } : Channel).performAll restlessRun

theorem reachableFresh_restless : restless.ReachableFresh := by
  refine ⟨{ channel := 0 }, false, .standard, _, restlessRun, rfl, fun t ht => ?_, rfl, rfl⟩
  obtain rfl : t = { channel := 0 } := by simpa [restlessRun] using ht
  rfl

theorem timeline_of_reachableFresh_restless :
    restless.ReachableFresh ∧ restless.clock = 10 ∧
      restless.pending.buckets.map (·.1) = [30, 710] ∧
      (∀ p ∈ restless.pending.toList, restless.clock ≤ p.1) ∧
      (∀ b ∈ restless.pending.buckets, b.2 ≠ []) ∧
      (∀ e ∈ restless.track.events, e.tick ≤ restless.clock) ∧
      (restless.track.written.Pairwise fun a b => a.tick ≤ b.tick) ∧
      restless.track.events = restless.track.written ∧
      restless.clock ≤ ((Operation.advance 25).perform.leaves restless).clock ∧
      (∀ b ∈ restless.pending.buckets, restless.clock ≤ b.1) ∧
      (restless.pending.rebase restless.clock).buckets =
        restless.pending.buckets.map (fun b => (b.1 - restless.clock, b.2)) ∧
      ((Operation.replaceTrack { channel := 0 }).perform.leaves restless).pending =
        restless.pending.rebase restless.clock ∧
      ((Operation.replaceTrack { channel := 0 }).perform.leaves restless).clock = 0 := by
  have hnumber : ({ channel := 0 } : Track).channel = restless.number := by decide +kernel
  obtain ⟨htimely, hfilled, htick, hordered, hevents, hclock, hreplace⟩ :=
    timeline_of_reachableFresh restless reachableFresh_restless
  exact ⟨reachableFresh_restless, by decide +kernel, by decide +kernel, htimely, hfilled, htick,
    hordered, hevents, hclock _ nofun, hreplace _ hnumber⟩

end Channel

end MidiScore
