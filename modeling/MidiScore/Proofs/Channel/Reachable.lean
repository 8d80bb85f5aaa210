import MidiScore.Proofs.Channel.Changes

/-!
# Channels that can be reached

A channel is reachable if it was made and then performed operations, some of which may have failed.
What outlasts every change is true of it (`Reachable.induction`): nothing that it has promised is
overdue, and what it records as the last release of a key is a release of that key
(`consistent_of_reachable`).

A channel whose track was empty at first, as were the tracks that replaced it, is `ReachableFresh`.
What is in its track it has written itself.
-/

namespace MidiScore

namespace Channel

/-- The channel is what operations made of a channel in its first state. An operation may have
failed and may have brought a track that is not empty. -/
def Reachable (c : Channel) : Prop :=
  ∃ track percussion timing c₀ ops,
    onTrack track percussion timing = .ok c₀ ∧ c = c₀.performAll ops

theorem eq_of_onTrack {track : Track} {percussion : Bool} {timing : Timing} {c : Channel}
    (h : onTrack track percussion timing = .ok c) :
    track.channel ≤ 15 ∧ c = { track, percussion, timing } := by
  unfold onTrack at h
  split at h
  · next hn =>
    cases h
    exact ⟨hn, rfl⟩
  · cases h

/-- What outlasts every change that operations make outlasts the operations. -/
theorem preserve_performAll {P : Channel → Prop} {ops : List Operation} {c : Channel}
    (change : ∀ op ∈ ops, ∀ {c c'}, Change op c c' → P c → P c') (hc : P c) :
    P (c.performAll ops) :=
  ChannelM.lasts_performAll
    (fun op hop c hc => (ChannelM.changes_perform op c).preserve (change op hop) hc) hc

/-- What is true of a channel in its first state, and outlasts every change, is true of every
channel that can be reached. -/
theorem Reachable.induction {P : Channel → Prop} {c : Channel} (h : Reachable c)
    (start : ∀ track percussion timing, track.channel ≤ 15 → P { track, percussion, timing })
    (change : ∀ {op c c'}, Change op c c' → P c → P c') : P c := by
  obtain ⟨track, percussion, timing, c₀, ops, hc₀, rfl⟩ := h
  obtain ⟨hn, rfl⟩ := eq_of_onTrack hc₀
  exact preserve_performAll (fun _ _ => change) (start track percussion timing hn)

/-- Nothing is overdue, and the releases that are recorded were written. -/
structure Consistent (c : Channel) : Prop where
  timely : ∀ p ∈ c.pending.toList, c.clock ≤ p.1
  handle_lt : ∀ key handle, c.release? key = some handle → handle < c.track.nextHandle
  release : ∀ key handle e, c.release? key = some handle → c.track.get? handle = some e →
    ∃ channel velocity, e.message = .noteOff channel key velocity

variable {op : Operation} {c c' : Channel}

theorem consistent_of_fresh (hp : ∀ p ∈ c.pending.toList, c.clock ≤ p.1)
    (hr : c.releases = .replicate 128 none) : Consistent c := by
  refine ⟨hp, fun key handle h => ?_, fun key handle e h => ?_⟩
  all_goals
    rw [release?_of_replicate hr] at h
    cases h

namespace Consistent

theorem congr (h : Consistent c) (ht : c'.track = c.track) (hr : c'.releases = c.releases)
    (hp : c'.pending = c.pending) (hc : c'.clock = c.clock) : Consistent c' := by
  have hrel : ∀ key, c'.release? key = c.release? key := fun key => by
    unfold release?
    rw [hr]
  refine ⟨?_, fun key handle => ?_, fun key handle e => ?_⟩
  · rw [hp, hc]
    exact h.timely
  · rw [hrel, ht]
    exact h.handle_lt key handle
  · rw [hrel, ht]
    exact h.release key handle e

theorem write (h : Consistent c) (m : Message) : Consistent (c.write m) := by
  refine ⟨h.timely, fun key handle hr => ?_, fun key handle e hr hget => ?_⟩
  · have hlt := h.handle_lt key handle hr
    unfold Channel.write
    rw [Track.nextHandle_push]
    omega
  · have hlt := h.handle_lt key handle hr
    unfold Channel.write at hget
    rw [Track.get?_push, if_neg (by omega)] at hget
    exact h.release key handle e hr hget

theorem emit (h : Consistent c) (m : Message) : Consistent (c.emit m) := by
  unfold Channel.emit
  split
  · exact h
  · exact h.write m

theorem released (h : Consistent c) (key velocity : Nat) :
    Consistent (c.released key velocity) := by
  have hemit := h.emit (.noteOff c.number key velocity)
  have hold : ∀ k handle, c.release? k = some handle →
      (c.emit (.noteOff c.number key velocity)).release? k = some handle := by
    intro k handle hr
    rw [emit_eq]
    exact hr
  refine ⟨h.timely, fun k handle hr => ?_, fun k handle e hr hget => ?_⟩
  · rcases of_release?_released hr with ⟨-, hr⟩ | ⟨-, hm, rfl⟩
    · exact hemit.handle_lt k handle (hold k handle hr)
    · show c.track.nextHandle < (c.emit _).track.nextHandle
      rw [emit_of_not_muted hm]
      simp [Channel.write]
  · change (c.emit _).track.get? handle = some e at hget
    rcases of_release?_released hr with ⟨-, hr⟩ | ⟨rfl, hm, rfl⟩
    · exact hemit.release k handle e (hold k handle hr) hget
    · rw [emit_of_not_muted hm] at hget
      rcases of_get?_write hget with ⟨-, rfl⟩ | ⟨hlt, -⟩
      · exact ⟨_, _, rfl⟩
      · exact absurd hlt (Nat.lt_irrefl _)

theorem takenBack (h : Consistent c) (key handle : Nat) : Consistent (c.takenBack key handle) := by
  refine ⟨h.timely, fun k handle' hr => ?_, fun k handle' e hr hget => ?_⟩
  · show handle' < (c.track.erase handle).nextHandle
    rw [Track.nextHandle_erase]
    exact h.handle_lt k handle' (of_release?_takenBack hr).2
  · change (c.track.erase handle).get? handle' = some e at hget
    rw [Track.get?_erase] at hget
    split at hget
    · cases hget
    · exact h.release k handle' e (of_release?_takenBack hr).2 hget

theorem push {tick : Nat} (h : Consistent c) (action : Action) (hle : c.clock ≤ tick) :
    Consistent { c with pending := c.pending.push tick action } := by
  refine ⟨?_, h.handle_lt, h.release⟩
  rintro ⟨u, a⟩ hp
  rcases Agenda.mem_toList_push.1 hp with ⟨rfl, -⟩ | hp
  · exact hle
  · exact h.timely _ hp

/-- The clock moves on to the bucket that was taken out, and everything else is due later. -/
theorem pop {target tick : Nat} {actions : List Action} {rest : Agenda Action} (h : Consistent c)
    (hpop : c.pending.popDue? target = some (tick, actions, rest)) :
    max c.clock tick = tick ∧ Consistent { c with pending := rest, clock := max c.clock tick } := by
  have hlist := Agenda.toList_of_popDue? hpop
  obtain ⟨a, as, rfl⟩ := List.exists_cons_of_ne_nil (Agenda.ne_nil_of_popDue? hpop)
  have hmax : max c.clock tick = tick := Nat.max_eq_right (h.timely (tick, a) (by simp [hlist]))
  refine ⟨hmax, fun p hp => ?_, h.handle_lt, h.release⟩
  rw [hmax]
  refine Agenda.tick_le_of_popDue? hpop p ?_
  rw [hlist]
  exact List.mem_append_right _ hp

theorem emitAll (h : Consistent c) (l : List Message) : Consistent (c.emitAll l) := by
  induction l generalizing c with
  | nil => exact h
  | cons m rest ih => exact ih (h.emit m)

theorem wait {target : Nat} (h : Consistent c)
    (idle : c.pending.popDue? target = none) : Consistent { c with clock := target } :=
  ⟨fun p hp => Nat.le_of_lt (Agenda.lt_of_popDue?_eq_none idle p hp), h.handle_lt, h.release⟩

/-- Nothing that an operation changes makes a channel inconsistent. -/
theorem change (h : Consistent c) (hchange : Change op c c') : Consistent c' := by
  have hsent : ∀ l, Consistent { c with track := (c.emitAll l).track } := fun l => by
    rw [← emitAll_eq]
    exact h.emitAll l
  cases hchange with
  | strike | control | bend | again => exact (hsent [_]).congr rfl rfl rfl rfl
  | release => exact h.released _ _
  | takeBack => exact h.takenBack _ _
  | program => exact (hsent _).congr rfl rfl rfl rfl
  | bank | adjust | slur | mute => exact h.congr rfl rfl rfl rfl
  | promise action due => exact h.push action due
  | take due => exact (h.pop due).2
  | wait idle le => exact h.wait idle
  | cut => exact h.write _
  | move => exact consistent_of_fresh (fun _ _ => Nat.zero_le _) rfl

end Consistent

theorem consistent_of_reachable (h : c.Reachable) : Consistent c :=
  h.induction (fun _ _ _ _ => consistent_of_fresh (fun _ _ => Nat.zero_le _) rfl)
    fun hchange hc => hc.change hchange

/-- The actions of a bucket leave a consistent channel, whether or not one of them fails. -/
theorem consistent_runAll (actions : List Action) (h : Consistent c) :
    Consistent ((ChannelM.runAll actions).leaves c) :=
  (ChannelM.changes_runAll .flush actions c).preserve (fun hchange hc => hc.change hchange) h

/-! ## Channels that are reached with empty tracks -/

/-- The channel is what operations made of a channel in its first state. Its track was empty, as
were the tracks that operations brought; an operation may have failed. -/
def ReachableFresh (c : Channel) : Prop :=
  ∃ track percussion timing c₀ ops, track.written = [] ∧
    (∀ t, .replaceTrack t ∈ ops → t.written = []) ∧
    onTrack track percussion timing = .ok c₀ ∧ c = c₀.performAll ops

theorem ReachableFresh.reachable (h : ReachableFresh c) : Reachable c := by
  obtain ⟨track, percussion, timing, c₀, ops, -, -, hc₀, rfl⟩ := h
  exact ⟨track, percussion, timing, c₀, ops, hc₀, rfl⟩

theorem ReachableFresh.perform (h : ReachableFresh c) (op : Operation)
    (hop : ∀ t, op = .replaceTrack t → t.written = []) : ReachableFresh (op.perform.leaves c) := by
  obtain ⟨track, percussion, timing, c₀, ops, hw, hfresh, hc₀, rfl⟩ := h
  refine ⟨track, percussion, timing, c₀, ops ++ [op], hw, fun t ht => ?_, hc₀, ?_⟩
  · rcases List.mem_append.1 ht with ht | ht
    · exact hfresh t ht
    · exact hop t (List.mem_singleton.1 ht).symm
  · unfold performAll
    rw [List.foldl_append]
    rfl

/-- What is true of a channel in its first state on an empty track, and outlasts every change, is
true of every channel that is reached with empty tracks. -/
theorem ReachableFresh.induction {P : Channel → Prop} (h : ReachableFresh c)
    (start : ∀ track percussion timing, track.written = [] → P { track, percussion, timing })
    (change : ∀ {op c c'}, (∀ t, op = .replaceTrack t → t.written = []) → Change op c c' →
      P c → P c') : P c := by
  obtain ⟨track, percussion, timing, c₀, ops, hw, hfresh, hc₀, rfl⟩ := h
  obtain ⟨-, rfl⟩ := eq_of_onTrack hc₀
  refine preserve_performAll (fun op hop => change ?_) (start track percussion timing hw)
  rintro t rfl
  exact hfresh t hop

end Channel

end MidiScore
