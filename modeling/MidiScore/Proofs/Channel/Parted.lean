import MidiScore.Proofs.Channel.Keys
import MidiScore.Proofs.Channel.Sounding

/-!
# Strikes that keep apart from releases

While a channel slurs, a key is struck either in place of its last release or more than a tick
behind all its releases. `Parted base c` says so of what stands in the track of `c` under handles
from `base` on. Its part `current` is what carries it: of the releases of a key that are in the
track, all but the one that a strike would find are more than a tick old.
-/

namespace MidiScore

/-- Whether a message releases a key. -/
def Message.releases (key : Nat) : Message → Bool
  | noteOff _ released _ => released = key
  | _ => false

theorem Message.not_releases {m : Message} (h : m.isNoteOff = false) (key : Nat) :
    m.releases key = false := by
  cases m <;> simp_all [isNoteOff, releases]

theorem Message.not_strikes {m : Message} (h : m.isNoteOn = false) (key : Nat) :
    m.strikes key = false := by
  cases m <;> simp_all [isNoteOn, strikes]

/-- No key is struck after a release of it within a tick. -/
def Legato (events : List Event) : Prop :=
  events.Pairwise fun off on =>
    ∀ key, off.message.releases key → on.message.strikes key → off.tick + 1 < on.tick

namespace Channel

/-- The release of a key that a strike would find, if it is not too old. -/
def Found (c : Channel) (key handle : Nat) : Prop :=
  c.noteState key = .offSlurred ∧ c.release? key = some handle

/-- Of what was written under handles from `base` on, no key was struck within a tick of a release
that was written before, and none can be. -/
structure Parted (base : Nat) (c : Channel) : Prop where
  tick_le : ∀ i e, base ≤ i → c.track.get? i = some e → e.tick ≤ c.clock
  ordered : ∀ i j e e', base ≤ i → i < j → c.track.get? i = some e → c.track.get? j = some e' →
    e.tick ≤ e'.tick
  current : ∀ i e key, base ≤ i → c.track.get? i = some e → e.message.releases key →
    c.Found key i ∨ e.tick + 1 < c.clock
  apart : ∀ i j e e' key, base ≤ i → i < j → c.track.get? i = some e → c.track.get? j = some e' →
    e.message.releases key → e'.message.strikes key → e.tick + 1 < e'.tick

/-- All releases of a key that are in the track are more than a tick old. -/
def Rested (base : Nat) (c : Channel) (key : Nat) : Prop :=
  ∀ i e, base ≤ i → c.track.get? i = some e → e.message.releases key → e.tick + 1 < c.clock

variable {base key velocity : Nat} {c c' : Channel}

namespace Parted

/-- Nothing was written yet. -/
theorem start (c : Channel) : Parted c.track.nextHandle c := by
  have hnone : ∀ i e, c.track.nextHandle ≤ i → c.track.get? i ≠ some e :=
    fun i e hi he => absurd (Track.lt_of_get? he) (Nat.not_lt_of_le hi)
  exact ⟨fun i e hi he => absurd he (hnone i e hi), fun i _ e _ hi _ he => absurd he (hnone i e hi),
    fun i e _ hi he => absurd he (hnone i e hi),
    fun i _ e _ _ hi _ he => absurd he (hnone i e hi)⟩

theorem congr (h : Parted base c) (ht : c'.track = c.track) (hn : c'.notes = c.notes)
    (hr : c'.releases = c.releases) (hc : c.clock ≤ c'.clock) : Parted base c' := by
  have hfound : ∀ key i, c.Found key i → c'.Found key i := fun key i hi => by
    unfold Found noteState release?
    rw [hn, hr]
    exact hi
  refine ⟨fun i e hi he => ?_, fun i j e e' hi hij he he' => ?_, fun i e key hi he hk => ?_,
    fun i j e e' key hi hij he he' => ?_⟩
  · exact Nat.le_trans (h.tick_le i e hi (ht ▸ he)) hc
  · exact h.ordered i j e e' hi hij (ht ▸ he) (ht ▸ he')
  · rcases h.current i e key hi (ht ▸ he) hk with hf | hlt
    · exact .inl (hfound key i hf)
    · exact .inr (Nat.lt_of_lt_of_le hlt hc)
  · exact h.apart i j e e' key hi hij (ht ▸ he) (ht ▸ he')

/-- What is written now comes last. It has to be the release that is found of its key, and a strike
of a key that has rested. -/
theorem push {m : Message} (h : Parted base c) (ht : c'.track = (c.write m).track)
    (hc : c'.clock = c.clock)
    (hkept : ∀ i e key, base ≤ i → c.track.get? i = some e → e.message.releases key →
      c'.Found key i ∨ e.tick + 1 < c.clock)
    (hnew : ∀ key, m.releases key → c'.Found key c.track.nextHandle)
    (hrested : ∀ key, m.strikes key → Rested base c key) : Parted base c' := by
  have hget : ∀ i e, c'.track.get? i = some e →
      (i = c.track.nextHandle ∧ e = ⟨c.clock, m⟩) ∨
        (i < c.track.nextHandle ∧ c.track.get? i = some e) := by
    intro i e he
    rw [ht] at he
    exact of_get?_write he
  refine ⟨fun i e hi he => ?_, fun i j e e' hi hij he he' => ?_, fun i e key hi he hk => ?_,
    fun i j e e' key hi hij he he' hk hk' => ?_⟩
  · rw [hc]
    rcases hget i e he with ⟨-, rfl⟩ | ⟨-, he⟩
    · exact Nat.le_refl _
    · exact h.tick_le i e hi he
  · rcases hget i e he with ⟨rfl, rfl⟩ | ⟨-, he⟩
    · rcases hget j e' he' with ⟨rfl, -⟩ | ⟨hj, -⟩ <;> omega
    · rcases hget j e' he' with ⟨rfl, rfl⟩ | ⟨-, he'⟩
      · exact h.tick_le i e hi he
      · exact h.ordered i j e e' hi hij he he'
  · rw [hc]
    rcases hget i e he with ⟨rfl, rfl⟩ | ⟨-, he⟩
    · exact .inl (hnew key hk)
    · exact hkept i e key hi he hk
  · rcases hget i e he with ⟨rfl, rfl⟩ | ⟨-, he⟩
    · rcases hget j e' he' with ⟨rfl, -⟩ | ⟨hj, -⟩ <;> omega
    · rcases hget j e' he' with ⟨rfl, rfl⟩ | ⟨-, he'⟩
      · exact hrested key hk' i e hi he hk
      · exact h.apart i j e e' key hi hij he he' hk hk'

theorem aside (h : Parted base c) (ha : ChannelM.Aside c c') : Parted base c' := by
  obtain ⟨track, controllers, dynamic, bend, rfl, rfl | ⟨m, hon, hoff, rfl⟩⟩ := ha
  · exact h.congr rfl rfl rfl (Nat.le_refl _)
  · refine h.push rfl rfl h.current (fun key hk => ?_) fun key hk => ?_
    · rw [Message.not_releases hoff] at hk
      cases hk
    · rw [Message.not_strikes hon] at hk
      cases hk

/-- A strike is written for a key that has rested. -/
theorem struck (h : Parted base c) (hm : c.muted = false) (hrested : Rested base c key) :
    Parted base (c.struck key velocity) := by
  have ht : (c.struck key velocity).track = (c.write (.noteOn c.number key velocity)).track := by
    unfold Channel.struck
    rw [emit_of_not_muted hm]
  refine h.push ht rfl (fun i e k hi he hk => ?_) (fun _ hk => by cases hk) fun k hk => ?_
  · by_cases hkey : key = k
    · subst hkey
      exact .inr (hrested i e hi he hk)
    · refine (h.current i e k hi he hk).imp_left fun hf => ⟨?_, hf.2⟩
      rw [noteState_struck, if_neg fun h => hkey h.1]
      exact hf.1
  · obtain rfl : key = k := by simpa [Message.strikes] using hk
    exact hrested

/-- A release is written for a key that is not in the state of being released. -/
theorem released (h : Parted base c) (hm : c.muted = false) (hs : c.slurred)
    (hkey : key < 128) (hstate : c.noteState key ≠ .offSlurred) :
    Parted base (c.released key velocity) := by
  have ht : (c.released key velocity).track = (c.write (.noteOff c.number key velocity)).track := by
    unfold Channel.released
    rw [emit_of_not_muted hm]
  have hnew : (c.released key velocity).Found key c.track.nextHandle := by
    refine ⟨?_, ?_⟩
    · rw [noteState_released, if_pos ⟨rfl, hkey⟩, if_pos hs]
    · rw [release?_released, if_pos ⟨rfl, hkey⟩]
      simp [emitHandle, hm]
  refine h.push ht rfl (fun i e k hi he hk => ?_) (fun k hk => ?_) fun _ hk => by cases hk
  · refine (h.current i e k hi he hk).imp_left fun hf => ?_
    have hne : ¬ (key = k ∧ key < 128) := fun hk => hstate (hk.1 ▸ hf.1)
    refine ⟨?_, ?_⟩
    · rw [noteState_released, if_neg hne]
      exact hf.1
    · rw [release?_released, if_neg hne]
      exact hf.2
  · obtain rfl : key = k := by simpa [Message.releases] using hk
    exact hnew

/-- Once its release was pulled out, a key has rested. -/
theorem takenBack {pulled : Nat} (h : Parted base c) (hr : c.release? key = some pulled) :
    Parted base (c.takenBack key pulled) ∧ Rested base (c.takenBack key pulled) key := by
  have hget : ∀ i e, (c.takenBack key pulled).track.get? i = some e →
      i ≠ pulled ∧ c.track.get? i = some e := by
    intro i e he
    change (c.track.erase pulled).get? i = some e at he
    rw [Track.get?_erase] at he
    split at he
    · cases he
    · next hne => exact ⟨hne, he⟩
  have hold : ∀ i e, base ≤ i → (c.takenBack key pulled).track.get? i = some e →
      e.message.releases key → e.tick + 1 < c.clock := by
    intro i e hi he hk
    obtain ⟨hne, he⟩ := hget i e he
    refine (h.current i e key hi he hk).resolve_left fun hf => hne ?_
    exact Option.some.inj (hf.2.symm.trans hr)
  refine ⟨⟨fun i e hi he => ?_, fun i j e e' hi hij he he' => ?_, fun i e k hi he hk => ?_,
    fun i j e e' k hi hij he he' => ?_⟩, hold⟩
  · exact h.tick_le i e hi (hget i e he).2
  · exact h.ordered i j e e' hi hij (hget i e he).2 (hget j e' he').2
  · by_cases hkey : key = k
    · subst hkey
      exact .inr (hold i e hi he hk)
    · refine (h.current i e k hi (hget i e he).2 hk).imp_left fun hf => ⟨hf.1, ?_⟩
      rw [release?_takenBack, if_neg fun hk => hkey hk.1]
      exact hf.2
  · exact h.apart i j e e' k hi hij (hget i e he).2 (hget j e' he').2

/-- A key that is struck without joining a release has rested. -/
theorem rested (h : Parted base c) (hs : c.slurred) (hj : c.joinedRelease? key = .ok none) :
    Rested base c key := by
  intro i e hi he hk
  rcases h.current i e key hi he hk with ⟨hstate, hr⟩ | hlt
  · exact lt_of_joinedRelease?_eq_none hj hs hstate hr he
  · exact hlt

/-- What was written comes in the same order in the list of all events, and it is legato. -/
theorem legato (h : Parted base c) :
    (c.track.writtenSince base).Sublist c.track.events ∧ Legato (c.track.writtenSince base) :=
  ⟨Track.writtenSince_sublist (Track.pairwise_writtenSince h.ordered),
    Track.pairwise_writtenSince fun i j e e' hi hij he he' key =>
      h.apart i j e e' key hi hij he he'⟩

end Parted

end Channel

end MidiScore
