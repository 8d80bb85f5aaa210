import MidiScore.Proofs.Channel.Reachable

/-!
# What is taken out of a track

An event is pulled out of a track only when a key is struck whose release it is.
`Descends slurs c₀ c` says what this means for the events that a channel `c₀` had written when `c`
came of it: they are still there, but for releases that `c₀` had recorded and that were no more than
a tick old. Every change keeps it (`Descends.change`), and so does every operation but one that
replaces the track (`descends_perform`).

A phrase turns slurring off when it ends, but it leaves keys in the state in which a strike takes
their release back. So the first strikes of a slurred phrase do join the last releases of another
(`not_kept_by_slurredQuarter`), and nothing else is lost (`kept_by_playPhrase`).
-/

namespace MidiScore

namespace Channel

/-- A strike of some key that slurs joins this event: it is the release that is recorded for the
key, which was released while slurring, no more than a tick ago. -/
def Joinable (c : Channel) (handle : Nat) (e : Event) : Prop :=
  ∃ key, c.noteState key = .offSlurred ∧ c.release? key = some handle ∧ c.clock ≤ e.tick + 1

/-- `c` came of `c₀` by operations that slurred only if `slurs`. -/
structure Descends (slurs : Prop) (c₀ c : Channel) : Prop where
  clock_le : c₀.clock ≤ c.clock
  handle_le : c₀.track.nextHandle ≤ c.track.nextHandle
  slurred : c.slurred → slurs
  event : ∀ handle e, c₀.track.get? handle = some e →
    c.track.get? handle = some e ∨ (slurs ∧ c₀.Joinable handle e)
  /-- What is recorded of the events of `c₀` was recorded by `c₀`. -/
  release : ∀ key handle, c.release? key = some handle → handle < c₀.track.nextHandle →
    c₀.release? key = some handle ∧ (c.noteState key = .offSlurred → c₀.noteState key = .offSlurred)

variable {op : Operation} {slurs : Prop} {c₀ c c' : Channel}

namespace Descends

theorem refl (h : c.slurred → slurs) : Descends slurs c c :=
  ⟨Nat.le_refl _, Nat.le_refl _, h, fun _ _ he => .inl he, fun _ _ hr _ => ⟨hr, id⟩⟩

theorem congr (h : Descends slurs c₀ c) (ht : c'.track = c.track) (hn : c'.notes = c.notes)
    (hr : c'.releases = c.releases) (hc : c.clock ≤ c'.clock) (hs : c'.slurred → slurs) :
    Descends slurs c₀ c' := by
  have hrel : ∀ key, c'.release? key = c.release? key := fun key => by
    unfold release?
    rw [hr]
  have hnote : ∀ key, c'.noteState key = c.noteState key := fun key => by
    unfold noteState
    rw [hn]
  refine ⟨Nat.le_trans h.clock_le hc, ht ▸ h.handle_le, hs, ht ▸ h.event, fun key handle => ?_⟩
  rw [hrel, hnote]
  exact h.release key handle

theorem write (h : Descends slurs c₀ c) (m : Message) : Descends slurs c₀ (c.write m) := by
  refine ⟨h.clock_le, ?_, h.slurred, fun handle e he => ?_, h.release⟩
  · show c₀.track.nextHandle ≤ (c.track.push _).nextHandle
    rw [Track.nextHandle_push]
    exact Nat.le_succ_of_le h.handle_le
  · have hlt := Nat.lt_of_lt_of_le (Track.lt_of_get? he) h.handle_le
    show (c.track.push _).get? handle = some e ∨ _
    rw [Track.get?_push, if_neg (Nat.ne_of_lt hlt)]
    exact h.event handle e he

theorem emit (h : Descends slurs c₀ c) (m : Message) : Descends slurs c₀ (c.emit m) := by
  unfold Channel.emit
  split
  · exact h
  · exact h.write m

theorem struck (h : Descends slurs c₀ c) (key velocity : Nat) :
    Descends slurs c₀ (c.struck key velocity) := by
  have hemit := h.emit (.noteOn c.number key velocity)
  refine ⟨h.clock_le, hemit.handle_le, h.slurred, hemit.event, fun k handle hr hlt => ?_⟩
  obtain ⟨hrel, hnote⟩ := h.release k handle hr hlt
  exact ⟨hrel, fun hk => hnote (noteState_struck_ne hk)⟩

theorem released (h : Descends slurs c₀ c) (key velocity : Nat) :
    Descends slurs c₀ (c.released key velocity) := by
  have hemit := h.emit (.noteOff c.number key velocity)
  refine ⟨h.clock_le, hemit.handle_le, h.slurred, hemit.event, fun k handle hr hlt => ?_⟩
  rcases of_release?_released hr with ⟨hkey, hr⟩ | ⟨-, -, rfl⟩
  · obtain ⟨hrel, hnote⟩ := h.release k handle hr hlt
    refine ⟨hrel, fun hk => hnote ?_⟩
    rwa [noteState_released, if_neg fun hk => hkey hk.1.symm] at hk
  · exact absurd hlt (Nat.not_lt_of_le h.handle_le)

/-- Only a strike that slurs takes a release back. -/
theorem takenBack {key pulled : Nat} (h : Descends slurs c₀ c)
    (hj : c.joinedRelease? key = .ok (some pulled)) :
    Descends slurs c₀ (c.takenBack key pulled) := by
  obtain ⟨hs, hstate, hr, e', hget, hle⟩ := exists_of_joinedRelease? hj
  refine ⟨h.clock_le, ?_, h.slurred, fun handle e he => ?_, fun k handle hk hlt => ?_⟩
  · show c₀.track.nextHandle ≤ (c.track.erase pulled).nextHandle
    rw [Track.nextHandle_erase]
    exact h.handle_le
  · show (c.track.erase pulled).get? handle = some e ∨ _
    rw [Track.get?_erase]
    by_cases hpulled : handle = pulled
    · subst hpulled
      obtain ⟨hrel, hnote⟩ := h.release key handle hr (Track.lt_of_get? he)
      rcases h.event handle e he with hkept | hlost
      · obtain rfl : e' = e := Option.some.inj (hget.symm.trans hkept)
        exact .inr ⟨h.slurred hs, key, hnote hstate, hrel, Nat.le_trans h.clock_le hle⟩
      · exact .inr hlost
    · rw [if_neg hpulled]
      exact h.event handle e he
  · exact h.release k handle (of_release?_takenBack hk).2 hlt

theorem emitAll (h : Descends slurs c₀ c) (l : List Message) :
    Descends slurs c₀ (c.emitAll l) := by
  induction l generalizing c with
  | nil => exact h
  | cons m rest ih => exact ih (h.emit m)

/-- A change takes at most releases out of the track, unless it replaces it. -/
theorem change (h : Descends slurs c₀ c) (hop : ∀ t, op ≠ .replaceTrack t)
    (hslurs : op.slurs → slurs) (hchange : Change op c c') : Descends slurs c₀ c' := by
  have hsent : ∀ l, Descends slurs c₀ { c with track := (c.emitAll l).track } := fun l => by
    rw [← emitAll_eq]
    exact h.emitAll l
  cases hchange with
  | strike => exact h.struck _ _
  | release => exact h.released _ _
  | takeBack joined => exact h.takenBack joined
  | control | bend | again => exact (hsent [_]).congr rfl rfl rfl (Nat.le_refl _) h.slurred
  | program => exact (hsent _).congr rfl rfl rfl (Nat.le_refl _) h.slurred
  | bank | adjust | promise | mute => exact h.congr rfl rfl rfl (Nat.le_refl _) h.slurred
  | slur slurred hslurred =>
    exact h.congr rfl rfl rfl (Nat.le_refl _) fun hs => hslurs (hslurred hs)
  | take => exact h.congr rfl rfl rfl (Nat.le_max_left ..) h.slurred
  | wait idle le => exact h.congr rfl rfl rfl le h.slurred
  | cut => exact h.write _
  | move replaces => exact absurd replaces (hop _)

end Descends

/-- An operation takes nothing out of the track but releases that it can join, unless it replaces
the track. It may fail. -/
theorem descends_perform (c : Channel) (hop : ∀ t, op ≠ .replaceTrack t) :
    Descends (c.slurred ∨ op.slurs) c (op.perform.leaves c) :=
  (ChannelM.changes_perform op c).preserve (fun hchange h => h.change hop .inr hchange) (.refl .inl)

end Channel

open Channel

namespace ChannelM

/-- A phrase that is played on a channel that does not slur keeps every event that was written
before, but for the releases of keys that were released while slurring and no more than a tick ago;
and these only if it slurs itself. -/
theorem kept_by_playPhrase {c c' : Channel} {p : Phrase} {t : Nat} (hc : c.Reachable)
    (hs : c.slurred = false) (h : playPhrase p c = .ok t c') {handle : Nat} {e : Event}
    (he : c.track.get? handle = some e) :
    c'.track.get? handle = some e ∨
      (∃ element ∈ p.elements, element.2.slurred) ∧
        ∃ key channel velocity, e.message = .noteOff channel key velocity ∧
          c.noteState key = .offSlurred ∧ c.release? key = some handle ∧ c.clock ≤ e.tick + 1 := by
  have hc' : (Operation.playPhrase p).perform.leaves c = c' :=
    (leaves_map _ _ c).trans (leaves_of_ok h)
  have hdescends : Descends (c.slurred ∨ (Operation.playPhrase p).slurs) c c' :=
    hc' ▸ descends_perform c nofun
  rcases hdescends.event handle e he with hkept | ⟨hslurs, key, hstate, hr, hle⟩
  · exact .inl hkept
  · obtain ⟨channel, velocity, hm⟩ := (consistent_of_reachable hc).release key handle e hr he
    have hslurred : ∃ element ∈ p.elements, element.2.slurred :=
      List.any_eq_true.1 (hslurs.resolve_left (by rw [hs]; exact Bool.false_ne_true))
    exact .inr ⟨hslurred, key, channel, velocity, hm, hstate, hr, hle⟩

/-- A slurred quarter. -/
def slurredQuarter : Phrase where
  melody := ⟨[⟨.pitch .c, .plain⟩]⟩
  rhythm := ⟨[Beat.quarter.withSlur true]⟩

/-- A channel that has played a slurred quarter. -/
def afterQuarter : Channel :=
  ({ track := { channel := 0 } } : Channel).performAll [.playPhrase slurredQuarter]

theorem reachable_afterQuarter : afterQuarter.Reachable :=
  ⟨{ channel := 0 }, false, .standard, _, [.playPhrase slurredQuarter], rfl, rfl⟩

theorem exists_playPhrase_afterQuarter :
    ∃ t, playPhrase slurredQuarter afterQuarter =
      .ok t ((playPhrase slurredQuarter).leaves afterQuarter) :=
  eq_ok_of_succeeds (by decide +kernel)

theorem kept_by_playPhrase_afterQuarter :
    afterQuarter.Reachable ∧ afterQuarter.slurred = false ∧
      afterQuarter.track.get? 2 = some ⟨960, .noteOff 0 60 96⟩ ∧
      ∃ t c', playPhrase slurredQuarter afterQuarter = .ok t c' ∧
        (c'.track.get? 2 = some ⟨960, .noteOff 0 60 96⟩ ∨
          (∃ element ∈ slurredQuarter.elements, element.2.slurred) ∧
            ∃ key channel velocity, Message.noteOff 0 60 96 = .noteOff channel key velocity ∧
              afterQuarter.noteState key = .offSlurred ∧ afterQuarter.release? key = some 2 ∧
              afterQuarter.clock ≤ 960 + 1) := by
  have hs : afterQuarter.slurred = false := by decide +kernel
  have he : afterQuarter.track.get? 2 = some ⟨960, .noteOff 0 60 96⟩ := by decide +kernel
  obtain ⟨t, h⟩ := exists_playPhrase_afterQuarter
  exact ⟨reachable_afterQuarter, hs, he, t, _, h,
    kept_by_playPhrase reachable_afterQuarter hs h he⟩

/-- The slur of a phrase carries past its end: the strike of the next phrase pulls the last release
out and is softened. -/
theorem not_kept_by_slurredQuarter :
    afterQuarter.Reachable ∧ afterQuarter.muted = false ∧ afterQuarter.slurred = false ∧
      ⟨960, .noteOff 0 60 96⟩ ∈ afterQuarter.track.events ∧
      ∃ t c', playPhrase slurredQuarter afterQuarter = .ok t c' ∧
        ⟨960, .noteOff 0 60 96⟩ ∉ c'.track.events ∧ ⟨960, .noteOn 0 60 43⟩ ∈ c'.track.events := by
  obtain ⟨t, h⟩ := exists_playPhrase_afterQuarter
  refine ⟨reachable_afterQuarter, by decide +kernel, by decide +kernel, ?_, t, _, h, ?_, ?_⟩
  · exact Track.mem_events.2 (by decide +kernel)
  · exact fun hmem => absurd (Track.mem_events.1 hmem) (by decide +kernel)
  · exact Track.mem_events.2 (by decide +kernel)

end ChannelM

end MidiScore
