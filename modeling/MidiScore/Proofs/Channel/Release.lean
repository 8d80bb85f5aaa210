import MidiScore.Proofs.Agenda
import MidiScore.Proofs.Channel.Fixes
import MidiScore.Proofs.Channel.Keys
import MidiScore.Proofs.Channel.Sounding

/-!
# Every key is released

A channel is `Accounted` for if each key that it holds, and each key that sounds in its track, has
a release that is still due: on the agenda, or among the actions of the bucket that is just being
run. Muting cuts all sound and then nothing is written, so nothing sounds in the track of a muted
channel, also after a release was pulled out of it.

Every operation keeps a channel accounted for (`keeps_perform`). When nothing is due any more, no
key is held and none sounds (`Accounted.settled`).
-/

namespace MidiScore

/-- The release of a key is due: among `due`, or on the agenda of the channel. -/
def Promised (due : List Action) (c : Channel) (key : Nat) : Prop :=
  ∃ velocity, .noteOff key velocity ∈ due ∨ ∃ t, (t, .noteOff key velocity) ∈ c.pending.toList

/-- A message that cuts all sound. -/
def Message.cutsSound (m : Message) : Prop :=
  ∀ key, m.silences key

/-- Each key that is held or sounds will be released, by `due` or by the agenda. -/
structure Accounted (due : List Action) (c : Channel) : Prop where
  held : ∀ key, (c.noteState key).isOn → Promised due c key
  sounding : ∀ key, Sounding key c.track.written → Promised due c key
  /-- The last that was written before a channel fell silent cut all sound. -/
  silent : c.muted → ∀ e, c.track.written.getLast? = some e → e.message.cutsSound
  handle_lt : ∀ key handle, c.release? key = some handle → handle < c.track.nextHandle
  /-- What can be pulled out when a key is struck is a release of this key. -/
  release : ∀ key handle e, c.release? key = some handle → c.track.get? handle = some e →
    ∃ channel velocity, e.message = .noteOff channel key velocity
  ordered : c.track.Ordered
  tick_le : ∀ e ∈ c.track.written, e.tick ≤ c.clock

variable {due : List Action} {c c' : Channel} {key : Nat}

theorem Promised.cons {a : Action} (h : Promised due c key) : Promised (a :: due) c key := by
  obtain ⟨v, h | h⟩ := h
  · exact ⟨v, .inl (List.mem_cons_of_mem a h)⟩
  · exact ⟨v, .inr h⟩

/-- A promise is not lost when an action that is no release of the key is taken from the front. -/
theorem Promised.of_cons {a : Action} (h : Promised (a :: due) c key)
    (ha : ∀ v, a ≠ .noteOff key v) : Promised due c key := by
  obtain ⟨v, h | h⟩ := h
  · rcases List.mem_cons.1 h with rfl | h
    · exact absurd rfl (ha v)
    · exact ⟨v, .inl h⟩
  · exact ⟨v, .inr h⟩

theorem Promised.congr (h : Promised due c key) (hp : c'.pending = c.pending) :
    Promised due c' key := by
  unfold Promised
  rw [hp]
  exact h

namespace Accounted

theorem not_sounding_of_muted (h : Accounted due c) (hm : c.muted) (key : Nat) :
    ¬ Sounding key c.track.written := by
  have hs := h.silent hm
  intro hk
  rcases List.eq_nil_or_concat c.track.written with hw | ⟨l, e, hw⟩
  · rw [hw] at hk
    exact hk
  · rw [hw, List.concat_eq_append] at hk hs
    rcases sounding_append_singleton.1 hk with he | ⟨he, -⟩
    · exact not_silences_of_strikes he (hs e (by simp) key)
    · exact he (hs e (by simp) key)

/-- When nothing is due any more, no key is held and the track is settled. -/
theorem settled (h : Accounted [] c) (hp : c.pending.toList = []) :
    Settled c.track.events ∧ ∀ key, ¬ (c.noteState key).isOn := by
  have hno : ∀ key, ¬ Promised [] c key := by
    rintro key ⟨v, hk | ⟨t, hk⟩⟩
    · cases hk
    · rw [hp] at hk
      cases hk
  refine ⟨?_, fun key hk => hno key (h.held key hk)⟩
  rw [Track.events_eq_written h.ordered]
  exact settled_of_not_sounding fun key hk => hno key (h.sounding key hk)

theorem cons (h : Accounted due c) (a : Action) : Accounted (a :: due) c :=
  { h with
    held := fun key hk => (h.held key hk).cons
    sounding := fun key hk => (h.sounding key hk).cons }

/-- Only a release is missed when the first of the due actions is taken away. -/
theorem of_cons {a : Action} (h : Accounted (a :: due) c) (ha : ∀ key v, a ≠ .noteOff key v) :
    Accounted due c :=
  { h with
    held := fun key hk => (h.held key hk).of_cons (ha key)
    sounding := fun key hk => (h.sounding key hk).of_cons (ha key) }

/-- What a channel is accounted for by: its track, its keys, its agenda, its clock and whether it is
muted. -/
theorem congr (h : Accounted due c) (ht : c'.track = c.track) (hn : c'.notes = c.notes)
    (hr : c'.releases = c.releases) (hp : c'.pending = c.pending) (hc : c'.clock = c.clock)
    (hm : c'.muted = c.muted) : Accounted due c' := by
  have hprom : ∀ key, Promised due c key → Promised due c' key := fun key hk => hk.congr hp
  have hrel : ∀ key, c'.release? key = c.release? key := fun key => by
    unfold Channel.release?
    rw [hr]
  refine ⟨fun key hk => hprom key (h.held key ?_), fun key hk => hprom key (h.sounding key ?_),
    ?_, fun key handle hk => ?_, fun key handle e hk he => h.release key handle e ?_ ?_, ?_, ?_⟩
  · unfold Channel.noteState at hk ⊢
    rwa [hn] at hk
  · rwa [ht] at hk
  · rw [ht, hm]
    exact h.silent
  · rw [ht]
    exact h.handle_lt key handle (by rw [← hrel, hk])
  · rw [← hrel, hk]
  · rw [← ht, he]
  · rw [ht]
    exact h.ordered
  · rw [ht, hc]
    exact h.tick_le

/-! ## Writing -/

/-- A key that a message strikes needs a release, and a muted channel only writes what cuts all
sound. -/
theorem write {m : Message} (h : Accounted due c) (hs : ∀ key, m.strikes key → Promised due c key)
    (hm : c.muted → m.cutsSound) : Accounted due (c.write m) := by
  have hw : (c.write m).track.written = c.track.written ++ [⟨c.clock, m⟩] := Track.written_push ..
  refine ⟨h.held, fun key hk => ?_, fun hmuted e he => ?_, fun key handle hk => ?_,
    fun key handle e hk he => ?_, ?_, fun e he => ?_⟩
  · rw [hw] at hk
    rcases sounding_append_singleton.1 hk with hk | ⟨-, hk⟩
    · exact hs key hk
    · exact h.sounding key hk
  · rw [hw, List.getLast?_concat] at he
    cases he
    exact hm hmuted
  · have hlt := h.handle_lt key handle hk
    unfold Channel.write
    rw [Track.nextHandle_push]
    omega
  · have hlt := h.handle_lt key handle hk
    unfold Channel.write at he
    rw [Track.get?_push, if_neg (by omega)] at he
    exact h.release key handle e hk he
  · have hw' : (c.write m).track.written = c.track.written ++ [m].map (Event.mk c.clock) := hw
    exact h.ordered.append h.tick_le hw'
  · rw [hw] at he
    rcases List.mem_append.1 he with he | he
    · exact h.tick_le e he
    · obtain rfl := List.mem_singleton.1 he
      exact Nat.le_refl _

theorem emit {m : Message} (h : Accounted due c) (hs : ∀ key, m.strikes key → Promised due c key) :
    Accounted due (c.emit m) := by
  unfold Channel.emit
  by_cases hm : c.muted
  · rw [if_pos hm]
    exact h
  · rw [if_neg hm]
    exact h.write hs fun hmuted => absurd hmuted hm

/-- Once its release was emitted, a key sounds no more. -/
theorem not_sounding_emit {n v : Nat} (h : Accounted due c) :
    ¬ Sounding key (c.emit (.noteOff n key v)).track.written := by
  unfold Channel.emit
  by_cases hm : c.muted
  · rw [if_pos hm]
    exact h.not_sounding_of_muted hm key
  · rw [if_neg hm]
    unfold Channel.write
    rw [Track.written_push, sounding_append_singleton]
    simp [Message.strikes, Message.silences]

theorem setNote {state : NoteState} (h : Accounted due c)
    (hs : state.isOn → Promised due c key) :
    Accounted due { c with notes := c.notes.setIfInBounds key state } := by
  refine ⟨fun k hk => ?_, h.sounding, h.silent, h.handle_lt, h.release, h.ordered, h.tick_le⟩
  rw [Channel.noteState_setNote] at hk
  split at hk
  · next hkey => exact hkey.1 ▸ hs hk
  · exact h.held k hk

/-- The handle under which the release of a key was just written is kept. -/
theorem record {n v : Nat} (h : Accounted due c) :
    Accounted due { c.emit (.noteOff n key v) with
      releases := c.releases.setIfInBounds key c.emitHandle } := by
  have he := h.emit (m := .noteOff n key v) fun k hk => by cases hk
  have hold : ∀ k handle, c.release? k = some handle →
      (c.emit (.noteOff n key v)).release? k = some handle := by
    intro k handle hk
    rw [Channel.emit_eq]
    exact hk
  refine ⟨he.held, he.sounding, he.silent, fun k handle hk => ?_, fun k handle e hk hget => ?_,
    he.ordered, he.tick_le⟩
  · change (c.released key v).release? k = some handle at hk
    rcases Channel.of_release?_released hk with ⟨-, hk⟩ | ⟨-, hm, rfl⟩
    · exact he.handle_lt k handle (hold k handle hk)
    · show c.track.nextHandle < (c.emit (.noteOff n key v)).track.nextHandle
      rw [Channel.emit_of_not_muted hm]
      exact Nat.lt_of_lt_of_eq (Nat.lt_succ_self _) (Track.nextHandle_push ..).symm
  · change (c.released key v).release? k = some handle at hk
    change (c.emit (.noteOff n key v)).track.get? handle = some e at hget
    rcases Channel.of_release?_released hk with ⟨-, hk⟩ | ⟨rfl, hm, rfl⟩
    · exact he.release k handle e (hold k handle hk) hget
    · rw [Channel.emit_of_not_muted hm] at hget
      rcases Channel.of_get?_write hget with ⟨-, rfl⟩ | ⟨hlt, -⟩
      · exact ⟨n, v, rfl⟩
      · exact absurd hlt (Nat.lt_irrefl _)

/-- Pulling out the release of a key makes only this key sound again. -/
theorem takeBack {handle : Nat} {e : Event} (h : Accounted due c)
    (hr : c.release? key = some handle) (hget : c.track.get? handle = some e)
    (hp : Promised due c key) :
    Accounted due { c with
      track := c.track.erase handle
      releases := c.releases.setIfInBounds key none } := by
  obtain ⟨n, v, he⟩ := h.release key handle e hr hget
  obtain ⟨xs, ys, hw, hw'⟩ := Track.exists_written_erase hget
  have hsub : (c.track.erase handle).written.Sublist c.track.written := by
    rw [hw, hw']
    exact List.Sublist.append_left (List.sublist_cons_self e ys) xs
  have hkept : ∀ k handle', (c.takenBack key handle).release? k = some handle' →
      c.release? k = some handle' :=
    fun k handle' hk => (Channel.of_release?_takenBack hk).2
  refine ⟨h.held, fun k hk => ?_, fun hm e' he' => ?_, fun k handle' hk => ?_,
    fun k handle' e' hk hget' => ?_, ?_, fun e' he' => h.tick_le e' (hsub.mem he')⟩
  · by_cases hkey : k = key
    · rw [hkey]
      exact hp
    · refine h.sounding k ?_
      change Sounding k (c.track.erase handle).written at hk
      rw [hw'] at hk
      rw [hw]
      refine hk.insert ?_
      rw [he]
      simpa [Message.silences] using Ne.symm hkey
  · -- the release that is pulled out is not what cut the sound, so it was not the last event
    have hlast := h.silent hm
    change (c.track.erase handle).written.getLast? = some e' at he'
    rw [hw, List.getLast?_append, List.getLast?_cons] at hlast
    rw [hw', List.getLast?_append] at he'
    cases hy : ys.getLast? with
    | none =>
      rw [hy] at hlast
      have hcut := hlast e rfl (key + 1)
      rw [he] at hcut
      simp [Message.silences] at hcut
    | some y =>
      rw [hy] at hlast he'
      exact hlast e' he'
  · show handle' < (c.track.erase handle).nextHandle
    rw [Track.nextHandle_erase]
    exact h.handle_lt k handle' (hkept k handle' hk)
  · change (c.track.erase handle).get? handle' = some e' at hget'
    rw [Track.get?_erase] at hget'
    split at hget'
    · cases hget'
    · exact h.release k handle' e' (hkept k handle' hk) hget'
  · exact h.ordered.sublist hsub

/-- An action that is put on the agenda need not be counted among those due. -/
theorem push {a : Action} {tick : Nat} (h : Accounted (a :: due) c) :
    Accounted due { c with pending := c.pending.push tick a } := by
  have hprom : ∀ key, Promised (a :: due) c key →
      Promised due { c with pending := c.pending.push tick a } key := by
    rintro key ⟨v, hk | ⟨t, hk⟩⟩
    · rcases List.mem_cons.1 hk with rfl | hk
      · exact ⟨v, .inr ⟨tick, Agenda.mem_toList_push.2 (.inl ⟨rfl, rfl⟩)⟩⟩
      · exact ⟨v, .inl hk⟩
    · exact ⟨v, .inr ⟨t, Agenda.mem_toList_push.2 (.inr hk)⟩⟩
  exact ⟨fun key hk => hprom key (h.held key hk), fun key hk => hprom key (h.sounding key hk),
    h.silent, h.handle_lt, h.release, h.ordered, h.tick_le⟩

/-- The release of a key is done with once the key is neither held nor sounds. -/
theorem discharge {v : Nat} (h : Accounted (.noteOff key v :: due) c)
    (hoff : ¬ (c.noteState key).isOn) (hquiet : ¬ Sounding key c.track.written) :
    Accounted due c := by
  have hne : ∀ k, k ≠ key → ∀ v', Action.noteOff key v ≠ .noteOff k v' := by
    intro k hk v' he
    cases he
    exact hk rfl
  refine { h with held := fun k hk => ?_, sounding := fun k hk => ?_ }
  · by_cases hkey : k = key
    · exact absurd (hkey ▸ hk) hoff
    · exact (h.held k hk).of_cons (hne k hkey)
  · by_cases hkey : k = key
    · exact absurd (hkey ▸ hk) hquiet
    · exact (h.sounding k hk).of_cons (hne k hkey)

end Accounted

end MidiScore
