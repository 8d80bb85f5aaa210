import MidiScore.Proofs.Channel.Clocked
import MidiScore.Proofs.Channel.Keys
import MidiScore.Proofs.Channel.Release

/-!
# After a flush nothing sounds

Every operation keeps a channel accounted for. A flush empties the agenda, so after it every strike
in the track is followed by a release of its key or by a message that cuts all sound, and no key is
held.
-/

namespace MidiScore

variable {due : List Action} {key : Nat}

namespace ChannelM

/-! ## Keys -/

theorem keeps_noteOn {velocity v : Nat} (hdue : .noteOff key v ∈ due) :
    Keeps (Accounted due) (noteOn key velocity) := by
  have hprom : ∀ c, Promised due c key := fun c => ⟨v, .inl hdue⟩
  refine Ensures.get_bind fun c => Ensures.bind (Q := fun _ => Accounted due) ?_ fun _ => ?_
  · refine (keeps_check _).bind fun _ => ensures_modify fun c h => h.emit fun k hk => ?_
    have hkey : key = k := by simpa [Message.strikes] using hk
    rw [← hkey]
    exact hprom c
  · exact ensures_modify fun c h => h.setNote fun _ => hprom c

theorem ensures_noteOff {v velocity : Nat} :
    Ensures (Accounted (.noteOff key v :: due)) (noteOff key velocity)
      fun _ => Accounted due := by
  refine Ensures.get_bind fun c => (keeps_check _).bind fun _ => ?_
  refine (ensures_modify fun c h => ?_ : Ensures _ _ fun _ c =>
    Accounted (.noteOff key v :: due) c ∧ ¬ Sounding key c.track.written).bind fun _ => ?_
  · exact ⟨h.record, h.not_sounding_emit⟩
  · refine ensures_modify fun c ⟨h, hquiet⟩ => ?_
    have hstate : ∀ slurred : Bool, ¬ (if slurred then NoteState.offSlurred else .off).isOn := by
      decide
    refine (h.setNote fun hon => absurd hon (hstate _)).discharge ?_ hquiet
    unfold Channel.noteState
    rw [Vector.getElem?_setIfInBounds, if_pos rfl]
    split
    · exact hstate _
    · exact (by decide : ¬ NoteState.off.isOn)

theorem keeps_retractRelease {v : Nat} (hdue : .noteOff key v ∈ due) :
    Keeps (Accounted due) (retractRelease key) := by
  intro c joined c' hc h
  obtain ⟨c₁, c₂, hget, h⟩ := bind_eq_ok h
  cases hget
  obtain ⟨found, c₂, hfound, h⟩ := bind_eq_ok h
  obtain ⟨hj, hc₂⟩ := ensures_ofExcept (P := (· = c)) c found c₂ rfl hfound
  subst hc₂
  cases found with
  | none =>
    cases h
    exact hc
  | some handle =>
    obtain ⟨-, -, hr, e, hget, -⟩ := Channel.exists_of_joinedRelease? hj
    cases h
    exact hc.takeBack hr hget ⟨v, .inl hdue⟩

theorem keeps_attackVelocity {v : Nat} {delta : Int} (hdue : .noteOff key v ∈ due) :
    Keeps (Accounted due) (attackVelocity key delta) := by
  refine (keeps_retractRelease hdue).bind fun joined => ?_
  split <;> exact Ensures.get_bind fun _ => keeps_ofOption _

theorem ensures_later {delta : Int} {a : Action} :
    Ensures (Accounted (a :: due)) (later delta a) fun _ => Accounted due :=
  Ensures.get_bind fun _ => (keeps_ofOption _).bind fun _ => ensures_modify fun _ h => h.push

/-- Striking a key promises its release. -/
theorem keeps_strike (delta : Int) (duration offVelocity : Nat) :
    Keeps (Accounted due) (strike key delta duration offVelocity) := by
  have hdue : .noteOff key offVelocity ∈ Action.noteOff key offVelocity :: due :=
    List.mem_cons_self
  refine Ensures.of_pre ?_ fun c h => h.cons (.noteOff key offVelocity)
  exact (keeps_attackVelocity hdue).bind fun _ => (keeps_noteOn hdue).bind fun _ => ensures_later

/-! ## Settings -/

theorem settable_accounted : Settable (Keeps (Accounted due)) where
  toCompositional := compositional_keeps
  check := keeps_check
  send m hm _ := (keeps_check m).bind fun _ => ensures_modify fun _ h => h.emit fun key hk => by
    cases m <;> simp_all [Message.isNoteOn, Message.strikes]
  adjust _ h := ensures_modify fun c hc =>
    hc.congr (h.track c) (h.notes c) (h.releases c) (h.pending c) (h.clock c) (h.muted c)

theorem cutsSound_allSoundsOff (n : Nat) :
    (Message.controlChange n Controller.allSoundsOff 0).cutsSound := by
  intro key
  simp [Message.silences]

/-- Cutting the sound leaves a channel that may fall silent. -/
theorem ensures_cutSound :
    Ensures (Accounted due) cutSound fun _ c =>
      Accounted due c ∧ Accounted due { c with muted := true } := by
  refine Ensures.get_bind fun c₀ => (keeps_check _).bind fun _ => ensures_modify fun c h => ?_
  have hw := h.write (m := .controlChange c₀.number Controller.allSoundsOff 0)
    (fun key hk => by cases hk) fun _ => cutsSound_allSoundsOff _
  refine ⟨hw, hw.held, hw.sounding, fun _ e he => ?_, hw.handle_lt, hw.release, hw.ordered,
    hw.tick_le⟩
  unfold Channel.write at he
  rw [Track.written_push, List.getLast?_concat] at he
  cases he
  exact cutsSound_allSoundsOff _

theorem keeps_setMuted (muted : Bool) : Keeps (Accounted due) (setMuted muted) := by
  cases muted with
  | false =>
    refine ensures_modify fun c h => ?_
    exact ⟨h.held, h.sounding, nofun, h.handle_lt, h.release, h.ordered, h.tick_le⟩
  | true =>
    refine ensures_get.bind fun c => ?_
    by_cases hm : c.muted
    · rw [if_neg (by simp [hm])]
      refine ensures_modify fun c' ⟨he, h⟩ => ?_
      subst he
      exact h.congr rfl rfl rfl rfl rfl hm.symm
    · rw [if_pos (by simp [hm])]
      refine Ensures.of_pre ?_ fun _ h => h.2
      exact ensures_cutSound.bind fun _ => ensures_modify fun _ h => h.2

/-! ## The clock -/

/-- Running an action does what it was counted for. -/
theorem ensures_run (a : Action) :
    Ensures (Accounted (a :: due)) (run a) fun _ => Accounted due := by
  cases a with
  | noteOff key velocity => exact ensures_noteOff
  | play key delta duration off => exact (keeps_strike _ _ _).of_pre fun _ h => h.of_cons nofun
  | setDynamic d => exact (settable_accounted.setDynamic d).of_pre fun _ h => h.of_cons nofun
  | turnKnob number value =>
    exact (settable_accounted.setController _ _).of_pre fun _ h => h.of_cons nofun
  | pressPedal number =>
    exact (settable_accounted.setController _ _).of_pre fun _ h => h.of_cons nofun
  | releasePedal number =>
    exact (settable_accounted.setController _ _).of_pre fun _ h => h.of_cons nofun
  | bend value => exact (settable_accounted.setBend _).of_pre fun _ h => h.of_cons nofun
  | resetBend => exact (settable_accounted.setBend _).of_pre fun _ h => h.of_cons nofun

end ChannelM

open ChannelM

/-- The actions of a bucket that was taken out are the ones that are due. -/
theorem Accounted.popDue? {c : Channel} {target tick now : Nat} {actions : List Action}
    {rest : Agenda Action} (h : Accounted [] c)
    (hpop : c.pending.popDue? target = some (tick, actions, rest)) (hnow : c.clock ≤ now) :
    Accounted actions { c with pending := rest, clock := now } := by
  have hprom : ∀ key, Promised [] c key →
      Promised actions { c with pending := rest, clock := now } key := by
    rintro key ⟨v, hk | ⟨t, hk⟩⟩
    · cases hk
    · rw [Agenda.toList_of_popDue? hpop] at hk
      rcases List.mem_append.1 hk with hk | hk
      · exact ⟨v, .inl (Agenda.mem_map_tick.1 hk).2⟩
      · exact ⟨v, .inr ⟨t, hk⟩⟩
  exact ⟨fun key hk => hprom key (h.held key hk), fun key hk => hprom key (h.sounding key hk),
    h.silent, h.handle_lt, h.release, h.ordered, fun e he => Nat.le_trans (h.tick_le e he) hnow⟩

namespace ChannelM

theorem clocked_accounted : Clocked Accounted where
  pop hpop h := h.popDue? hpop (Nat.le_max_left ..)
  run a _ := ensures_run a
  rest _ hle h := { h with tick_le := fun e he => Nat.le_trans (h.tick_le e he) hle }

/-- What operations, other than a replacement, do to a channel that is accounted for. -/
theorem performable_accounted : Performable (Keeps (Accounted [])) where
  toSettable := settable_accounted
  strike _ := keeps_strike
  later _ a := (ensures_later (a := a)).of_pre fun _ h => h.cons a
  advance := clocked_accounted.advance
  setSlurred _ := ensures_modify fun _ h => h.congr rfl rfl rfl rfl rfl rfl
  setMuted := keeps_setMuted

end ChannelM

/-! ## Replacing the track -/

/-- On an empty track nothing sounds and no release can be pulled out. -/
theorem accounted_of_empty {c : Channel} (hw : c.track.written = [])
    (hr : c.releases = .replicate 128 none)
    (held : ∀ key, (c.noteState key).isOn → Promised due c key) : Accounted due c := by
  have hnone := Channel.release?_of_replicate hr
  refine ⟨held, fun key hk => ?_, fun _ e he => ?_, fun key handle hk => ?_,
    fun key handle e hk => ?_, ?_, fun e he => ?_⟩
  · rw [hw] at hk
    cases hk
  · rw [hw] at he
    cases he
  · rw [hnone] at hk
    cases hk
  · rw [hnone] at hk
    cases hk
  · unfold Track.Ordered
    rw [hw]
    exact List.Pairwise.nil
  · rw [hw] at he
    cases he

/-- A channel stays accounted for when it goes on with an empty track. -/
theorem Accounted.replace {c : Channel} {track : Track} (h : Accounted [] c)
    (hw : track.written = []) :
    Accounted [] { c with
      track
      clock := 0
      pending := c.pending.rebase c.clock
      releases := .replicate 128 none } := by
  apply accounted_of_empty hw rfl
  intro key hk
  obtain ⟨v, hk | ⟨t, hk⟩⟩ := h.held key hk
  · cases hk
  · exact ⟨v, .inr ⟨t - c.clock, Agenda.mem_toList_rebase.2 ⟨t, hk, rfl⟩⟩⟩

namespace ChannelM

theorem keeps_restrike : Keeps (Accounted []) restrike := by
  refine ensures_get.bind fun c => ?_
  refine Ensures.weaken (P := fun c' => Accounted [] c' ∧ c'.pending = c.pending ∧ Accounted [] c)
    (Q := fun _ c' => Accounted [] c' ∧ c'.pending = c.pending ∧ Accounted [] c) ?_ ?_ ?_
  · refine keeps_forM fun key hkey => (keeps_check _).bind fun _ => ensures_modify fun c' h => ?_
    obtain ⟨hc', hp, hc⟩ := h
    have hon : (c.noteState key).isOn := (List.mem_filter.1 hkey).2
    refine ⟨hc'.emit fun k hk => ?_, (pending_emit _ _).trans hp, hc⟩
    have he : key = k := by simpa [Message.strikes] using hk
    rw [← he]
    exact (hc.held key hon).congr hp
  · rintro c' ⟨rfl, h⟩
    exact ⟨h, rfl, h⟩
  · exact fun _ _ h => h.1

theorem keeps_replaceTrack {track : Track} (hw : track.written = []) :
    Keeps (Accounted []) (replaceTrack track) := by
  refine ensures_get.bind fun c => ?_
  by_cases hn : track.channel ≠ c.number
  · rw [if_pos hn]
    exact (ensures_throw (Q := fun _ _ => False) _).bind fun _ _ _ _ h => h.elim
  · rw [if_neg hn]
    refine (ensures_set (S := Accounted []) ?_).bind fun _ => ?_
    · rintro c₀ ⟨rfl, h⟩
      exact h.replace hw
    have hrest : ∀ u : PUnit, Keeps (Accounted []) (do restrike; return c.track) :=
      fun _ => keeps_restrike.bind fun _ => keeps_pure _
    dsimp only
    have hcut : Keeps (Accounted []) cutSound :=
      ensures_cutSound.weaken (fun _ => id) fun _ _ => And.left
    split
    · refine (settable_accounted.setInstrument _).bind fun _ => ?_
      refine (settable_accounted.setBend _).ite_bind fun _ => ?_
      exact hcut.ite_bind hrest
    · refine (settable_accounted.setBend _).ite_bind fun _ => ?_
      exact hcut.ite_bind hrest

/-- Every operation keeps a channel accounted for, if replacements are for empty tracks. -/
theorem keeps_perform {op : Operation} (h : ∀ t, op = .replaceTrack t → t.written = []) :
    Keeps (Accounted []) op.perform :=
  performable_accounted.operable.perform op fun t ht => keeps_replaceTrack (h t ht)

/-- Performs operations one after the other, until one fails. -/
def performEach (ops : List Operation) : ChannelM PUnit :=
  ops.forM fun op => do
    let _ ← op.perform

theorem keeps_performEach {ops : List Operation}
    (h : ∀ t, .replaceTrack t ∈ ops → t.written = []) :
    Keeps (Accounted []) (performEach ops) := by
  refine keeps_forM fun op hop => Ensures.bind (keeps_perform ?_) fun _ => keeps_pure _
  rintro t rfl
  exact h t hop

/-- A flush that succeeds leaves nothing pending. -/
theorem pending_of_flush {c c' : Channel} {t : Nat} (h : flush c = .ok t c') :
    c'.pending.toList = [] := by
  replace h : Channel.flush c = .ok t c' := h
  fun_induction Channel.flush c with
  | case1 c hlast =>
    cases h
    exact Agenda.toList_of_lastDue?_eq_none hlast
  | case2 c last _ t₁ c₁ _ ih => exact ih h
  | case3 => cases h

end ChannelM

/-- A channel in its first state on an empty track is accounted for. -/
theorem accounted_fresh {track : Track} {percussion : Bool} {timing : Timing}
    (hw : track.written = []) : Accounted [] { track, percussion, timing } := by
  apply accounted_of_empty hw rfl
  intro key hk
  unfold Channel.noteState at hk
  rw [Vector.getElem?_replicate] at hk
  split at hk <;> cases hk

theorem accounted_onTrack {track : Track} {percussion : Bool} {timing : Timing} {c : Channel}
    (hw : track.written = []) (h : Channel.onTrack track percussion timing = .ok c) :
    Accounted [] c := by
  unfold Channel.onTrack at h
  split at h
  · cases h
    exact accounted_fresh hw
  · cases h

end MidiScore
