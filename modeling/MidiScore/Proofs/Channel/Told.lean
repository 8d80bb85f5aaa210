import MidiScore.Proofs.Channel.Muted
import MidiScore.Proofs.Channel.Shifted

/-!
# What a channel tells a listener

A channel tells a listener of its instrument and its bend by messages on its track. A listener goes
by what was told last (`Setting.heard`). Unless a channel is muted, it tells a setting whenever it
changes it (`Change.tells`, `tells_perform`), and it tells its settings again when it goes on with
another track (`heard_replaceTrack`).
-/

namespace MidiScore

/-- A setting of which a listener is told. -/
inductive Setting where
  | program
  | bend

namespace Setting

/-- The value that a message gives the setting. -/
def told? : Setting → Message → Option Nat
  | program, .programChange _ value => some value
  | bend, .pitchBend _ value => some value
  | _, _ => none

/-- The value that a listener goes by who was told none. -/
def untold : Setting → Option Nat
  | program => none
  | bend => some bendCenter

/-- The value that was told last. -/
def lastTold? (s : Setting) (messages : List Message) : Option Nat :=
  (messages.filterMap s.told?).getLast?

/-- The value that a listener goes by after some events. -/
def heard (s : Setting) (events : List Event) : Option Nat :=
  (s.lastTold? (events.map (·.message))).or s.untold

variable (s : Setting)

theorem lastTold?_append (l l' : List Message) :
    s.lastTold? (l ++ l') = (s.lastTold? l').or (s.lastTold? l) := by
  unfold lastTold?
  rw [List.filterMap_append, List.getLast?_append]

theorem lastTold?_eq_none {l : List Message} (h : ∀ m ∈ l, s.told? m = none) :
    s.lastTold? l = none := by
  unfold lastTold?
  rw [List.filterMap_eq_nil_iff.2 h]
  rfl

theorem heard_append (events : List Event) (tick : Nat) (messages : List Message) :
    s.heard (events ++ messages.map (Event.mk tick)) =
      (s.lastTold? messages).or (s.heard events) := by
  have hmessages : (messages.map (Event.mk tick)).map (·.message) = messages := by
    simp [Function.comp_def]
  unfold heard
  rw [List.map_append, hmessages, lastTold?_append, Option.or_assoc]

/-- An event that tells nothing of the setting is not missed. -/
theorem heard_erase {e : Event} (he : s.told? e.message = none) (xs ys : List Event) :
    s.heard (xs ++ e :: ys) = s.heard (xs ++ ys) := by
  unfold heard lastTold?
  simp only [List.map_append, List.map_cons, List.filterMap_append, List.filterMap_cons, he]

end Setting

namespace Channel

variable {op : Operation} {s : Setting} {c₀ c c' : Channel}

/-- What the channel remembers of a setting. -/
def remembered (c : Channel) : Setting → Option Nat
  | .program => c.instrument
  | .bend => some c.bend

/-! ## Operations that neither mute nor replace -/

/-- What is sent last is heard, unless the channel is muted. -/
theorem heard_of_told {l : List Message} {m : Message} {value : Nat} (hunmuted : c.muted = false)
    (ht : c'.track = (c.emitAll (l ++ [m])).track) (hm : s.told? m = some value) :
    s.heard c'.track.written = some value := by
  have hlast : s.lastTold? [m] = some value := by
    unfold Setting.lastTold?
    rw [List.filterMap_cons_some hm]
    rfl
  rw [ht, track_emitAll, hunmuted, if_neg Bool.false_ne_true, written_said, s.heard_append,
    s.lastTold?_append, hlast]
  rfl

/-- From `c` to `c'` nothing happened to a setting that a listener could miss, unless `c` is muted.
-/
def Tells (s : Setting) (c c' : Channel) : Prop :=
  (s.heard c'.track.written = s.heard c.track.written ∧
    (c'.remembered s = c.remembered s ∨ c.muted)) ∨
  (c.muted = false ∧ s.heard c'.track.written = c'.remembered s)

namespace Tells

theorem refl (s : Setting) (c : Channel) : Tells s c c :=
  .inl ⟨rfl, .inl rfl⟩

theorem trans (h : Tells s c₀ c) (h' : Tells s c c') (hm : c.muted = c₀.muted) :
    Tells s c₀ c' := by
  rcases h' with ⟨hheard, hsame⟩ | ⟨hunmuted, hheard⟩
  · rcases h with ⟨hheard₀, hsame₀⟩ | ⟨hunmuted, hheard₀⟩
    · refine .inl ⟨hheard.trans hheard₀, ?_⟩
      rcases hsame with hsame | hmuted
      · rcases hsame₀ with hsame₀ | hmuted
        · exact .inl (hsame.trans hsame₀)
        · exact .inr hmuted
      · exact .inr (hm ▸ hmuted)
    · rcases hsame with hsame | hmuted
      · exact .inr ⟨hunmuted, hheard.trans (hheard₀.trans hsame.symm)⟩
      · rw [hm, hunmuted] at hmuted
        cases hmuted
  · exact .inr ⟨hm ▸ hunmuted, hheard⟩

theorem of_track_eq (ht : c'.track = c.track) (hr : c'.remembered s = c.remembered s) :
    Tells s c c' :=
  .inl ⟨by rw [ht], .inl hr⟩

/-- Messages that tell nothing of the setting do not change it. -/
theorem of_untold {l : List Message} (ht : c'.track = (c.emitAll l).track)
    (hl : ∀ m ∈ l, s.told? m = none) (hr : c'.remembered s = c.remembered s) : Tells s c c' := by
  refine .inl ⟨?_, .inl hr⟩
  rw [ht, track_emitAll, written_said, s.heard_append]
  split
  · rfl
  · rw [s.lastTold?_eq_none hl]
    rfl

/-- The last of some messages tells the setting that is remembered. -/
theorem of_told {l : List Message} {m : Message} {value : Nat}
    (ht : c'.track = (c.emitAll (l ++ [m])).track) (hm : s.told? m = some value)
    (hr : c'.remembered s = some value) : Tells s c c' := by
  cases hmuted : c.muted with
  | true =>
    rw [track_emitAll, hmuted, if_pos rfl, said_nil] at ht
    exact .inl ⟨by rw [ht], .inr hmuted⟩
  | false => exact .inr ⟨hmuted, (heard_of_told hmuted ht hm).trans hr.symm⟩

end Tells

theorem told?_of_mem_bankMessages {m : Message} (h : m ∈ c.bankMessages) : s.told? m = none := by
  obtain ⟨number, value, rfl⟩ := exists_of_mem_bankMessages h
  cases s <;> rfl

theorem Change.tells (hchange : Change op c c') (hc : Consistent c) (hop : op.resets = false)
    (s : Setting) : Tells s c c' := by
  have hsilent : ∀ {m : Message} {c' : Channel}, s.told? m = none → c'.track = (c.emit m).track →
      c'.remembered s = c.remembered s → Tells s c c' := by
    intro m c' hm ht hr
    refine .of_untold (l := [m]) ht (fun m' hm' => ?_) hr
    obtain rfl := List.mem_singleton.1 hm'
    exact hm
  cases hchange with
  | strike | release | control => exact hsilent (by cases s <;> rfl) rfl (by cases s <;> rfl)
  | @takeBack key handle joined =>
    obtain ⟨-, -, hr, e, hget, -⟩ := exists_of_joinedRelease? joined
    obtain ⟨channel, velocity, he⟩ := hc.release key handle e hr hget
    obtain ⟨xs, ys, hw, hw'⟩ := Track.exists_written_erase hget
    have huntold : s.told? e.message = none := by
      rw [he]
      cases s <;> rfl
    refine .inl ⟨?_, .inl (by cases s <;> rfl)⟩
    show s.heard (c.track.erase handle).written = _
    rw [hw', hw, s.heard_erase huntold]
  | @bend bend =>
    cases s with
    | program => exact hsilent rfl rfl rfl
    | bend => exact .of_told (l := []) (m := .pitchBend c.number bend) rfl rfl rfl
  | @program program bank =>
    cases s with
    | program => exact .of_told rfl rfl rfl
    | bend =>
      refine .of_untold rfl (fun m hm => ?_) rfl
      rcases List.mem_append.1 hm with hm | hm
      · exact told?_of_mem_bankMessages hm
      · obtain rfl := List.mem_singleton.1 hm
        rfl
  | bank | adjust | slur | promise | take | wait => exact .of_track_eq rfl (by cases s <;> rfl)
  | cut resets | again resets =>
    rw [resets] at hop
    cases hop
  | mute mutes =>
    rw [mutes] at hop
    cases hop
  | move replaces =>
    rw [replaces] at hop
    cases hop

theorem tells_perform (hc : Consistent c) (hop : op.resets = false) (s : Setting) :
    Tells s c (op.perform.leaves c) := by
  have hall : Consistent (op.perform.leaves c) ∧ (op.perform.leaves c).muted = c.muted ∧
      Tells s c (op.perform.leaves c) := by
    refine (ChannelM.changes_perform op c).preserve
      (P := fun c' => Consistent c' ∧ c'.muted = c.muted ∧ Tells s c c') (fun hchange h => ?_)
      ⟨hc, rfl, .refl s c⟩
    obtain ⟨hcons, hmuted, htells⟩ := h
    exact ⟨hcons.change hchange, (hchange.muted_eq hop).trans hmuted,
      htells.trans (hchange.tells hcons hop s) hmuted⟩
  exact hall.2.2

/-! ## Muting and replacing -/

theorem heard_setMuted (hc : Sendable c) (muted : Bool) (s : Setting) :
    s.heard ((ChannelM.setMuted muted).leaves c).track.written = s.heard c.track.written ∧
      ((ChannelM.setMuted muted).leaves c).remembered s = c.remembered s := by
  unfold ChannelM.setMuted
  rw [ChannelM.leaves_get_bind]
  split
  · rw [ChannelM.leaves_bind_of_ok _ (ChannelM.cutSound_eq hc.number_le), ChannelM.leaves_modify]
    have huntold : s.lastTold? [.controlChange c.number Controller.allSoundsOff 0] = none := by
      cases s <;> rfl
    refine ⟨?_, by cases s <;> rfl⟩
    show s.heard (c.write _).track.written = _
    rw [track_write, written_said, s.heard_append, huntold]
    rfl
  · exact ⟨rfl, by cases s <;> rfl⟩

/-- What a listener must know is told on the new track, unless the channel is muted. -/
theorem lastTold?_reassertion (c : Channel) (s : Setting) :
    (s.lastTold? c.reassertion).or s.untold = if c.muted then s.untold else c.remembered s := by
  have hbank : s.lastTold? c.bankMessages = none :=
    s.lastTold?_eq_none fun m hm => told?_of_mem_bankMessages hm
  have hheld : s.lastTold? (c.heldKeys.map (.noteOn c.number · ChannelM.heldVelocity)) = none := by
    refine s.lastTold?_eq_none fun m hm => ?_
    obtain ⟨key, -, rfl⟩ := List.mem_map.1 hm
    cases s <;> rfl
  unfold reassertion
  by_cases hm : c.muted
  · rw [if_pos hm, if_pos hm]
    cases s <;> rfl
  · rw [if_neg hm, if_neg hm]
    simp only [s.lastTold?_append, hbank, hheld]
    cases s with
    | program =>
      have hbend : Setting.program.lastTold?
          (if c.bend ≠ bendCenter then [.pitchBend c.number c.bend] else []) = none := by
        split <;> rfl
      rw [hbend]
      show _ = c.instrument
      cases c.instrument <;> rfl
    | bend =>
      have hprogram : Setting.bend.lastTold?
          (c.instrument.map (.programChange c.number)).toList = none := by
        cases c.instrument <;> rfl
      rw [hprogram]
      show _ = some c.bend
      by_cases hb : c.bend ≠ bendCenter
      · rw [if_pos hb]
        rfl
      · rw [if_neg hb, Classical.not_not.1 hb]
        rfl

theorem heard_replaceTrack {track : Track} (hc : Sendable c) (hn : track.channel = c.number)
    (hw : track.written = []) (s : Setting) :
    s.heard ((ChannelM.replaceTrack track).leaves c).track.written =
        (if c.muted then s.untold else c.remembered s) ∧
      ((ChannelM.replaceTrack track).leaves c).remembered s = c.remembered s := by
  rw [ChannelM.leaves_of_ok (ChannelM.replaceTrack_of_sendable hc hn)]
  refine ⟨?_, by cases s <;> rfl⟩
  rw [← lastTold?_reassertion, written_said, s.heard_append]
  show Option.or _ (s.heard track.written) = _
  rw [hw]
  rfl

end Channel

end MidiScore
