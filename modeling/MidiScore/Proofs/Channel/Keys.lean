import MidiScore.Proofs.Channel.Ensures
import MidiScore.Proofs.Track

/-!
# What is done to a key

A strike or a release that succeeds leaves a channel that can be written down. There is one lemma
for each operation on a key (`eq_of_noteOff`, `eq_of_noteOn`, `of_attackVelocity`, `of_later`);
proofs about keys cite these and do not open the operations.
-/

namespace MidiScore

/-- The key that an action strikes or releases. -/
def Action.noteKey? : Action → Option Nat
  | noteOff key _ => some key
  | play key .. => some key
  | _ => none

/-- The velocity of a strike fits its message. -/
theorem Dynamic.louder?_le {d : Dynamic} {delta : Int} {velocity : Nat}
    (h : d.louder? delta = some velocity) : velocity ≤ 127 := by
  obtain ⟨v, -, rfl⟩ := Option.map_eq_some_iff.1 h
  unfold clampVelocity
  omega

theorem Dynamic.softened?_le {d : Dynamic} {delta : Int} {velocity : Nat}
    (h : d.softened? delta = some velocity) : velocity ≤ 127 := by
  unfold softened? at h
  simp only [bind, Option.bind_eq_some_iff, pure, Option.some.injEq] at h
  obtain ⟨loudness, -, fall, -, v, hv, rfl⟩ := h
  have := louder?_le hv
  omega

namespace Channel

/-- The release that a strike joins is recorded for its key and still in the track. -/
theorem exists_of_joinedRelease? {key : Nat} {c : Channel} {handle : Nat}
    (h : c.joinedRelease? key = .ok (some handle)) :
    c.slurred ∧ c.noteState key = .offSlurred ∧ c.release? key = some handle ∧
      ∃ e, c.track.get? handle = some e ∧ c.clock ≤ e.tick + 1 := by
  unfold joinedRelease? at h
  by_cases hs : c.slurred
  · rw [if_neg (by simp [hs])] at h
    split at h
    · cases h
    · split at h
      · cases h
      · next hstate =>
        split at h
        · cases h
        · next handle' tick hfound =>
          obtain ⟨handle'', hr, hmap⟩ := Option.bind_eq_some_iff.1 hfound
          obtain ⟨e, hget, he⟩ := Option.map_eq_some_iff.1 hmap
          cases he
          split at h
          · cases h
          · next next hnext =>
            obtain ⟨-, rfl⟩ := Bounded.nat?_eq_some_iff.1 hnext
            simp only [Except.ok.injEq] at h
            split at h
            · next hle =>
              cases h
              exact ⟨hs, by simpa using hstate, hr, e, hget, hle⟩
            · cases h
  · rw [if_pos (by simp [hs])] at h
    cases h

/-- A strike of a slurring channel that joins no release finds none, or one that lies too far
back. -/
theorem lt_of_joinedRelease?_eq_none {key : Nat} {c : Channel} {handle : Nat} {e : Event}
    (h : c.joinedRelease? key = .ok none) (hs : c.slurred) (hstate : c.noteState key = .offSlurred)
    (hr : c.release? key = some handle) (he : c.track.get? handle = some e) :
    e.tick + 1 < c.clock := by
  unfold joinedRelease? at h
  rw [if_neg (by simp [hs])] at h
  split at h
  · cases h
  · rw [if_neg (by simp [hstate])] at h
    simp only [hr, Option.bind_some, he, Option.map_some] at h
    split at h
    · cases h
    · next next hnext =>
      obtain ⟨-, rfl⟩ := Bounded.nat?_eq_some_iff.1 hnext
      simp only [Except.ok.injEq, ite_eq_right_iff, reduceCtorEq, imp_false] at h
      omega

/-- Looking for the release that a strike joins fails only because a number overflows. -/
theorem overflow_of_joinedRelease? {key : Nat} {c : Channel} {e : Failure}
    (h : c.joinedRelease? key = .error e) : e = .overflow := by
  unfold joinedRelease? at h
  split at h
  · cases h
  · split at h
    · cases h
      rfl
    · split at h
      · cases h
      · split at h
        · cases h
        · split at h <;> cases h
          rfl

/-- Sending a message changes at most the track. -/
theorem emit_eq (c : Channel) (m : Message) : c.emit m = { c with track := (c.emit m).track } := by
  unfold emit
  split <;> rfl

theorem channel_emit (c : Channel) (m : Message) : (c.emit m).track.channel = c.track.channel := by
  unfold emit
  split <;> rfl

/-- What is in a track after a message was written is that message or was there before. -/
theorem of_get?_write {c : Channel} {m : Message} {i : Nat} {e : Event}
    (h : (c.write m).track.get? i = some e) :
    (i = c.track.nextHandle ∧ e = ⟨c.clock, m⟩) ∨
      (i < c.track.nextHandle ∧ c.track.get? i = some e) := by
  unfold write at h
  rw [Track.get?_push] at h
  split at h
  · next hi => exact .inl ⟨hi, (Option.some.inj h).symm⟩
  · exact .inr ⟨Track.lt_of_get? h, h⟩

@[simp] theorem emit_of_not_muted {c : Channel} {m : Message} (h : c.muted = false) :
    c.emit m = c.write m := by
  simp [emit, h]

/-- The channel with the release of a key pulled out of its track. -/
def takenBack (c : Channel) (key handle : Nat) : Channel :=
  { c with
    track := c.track.erase handle
    releases := c.releases.setIfInBounds key none }

/-- The channel after the release of a key was written. -/
def released (c : Channel) (key velocity : Nat) : Channel :=
  { c with
    track := (c.emit (.noteOff c.number key velocity)).track
    releases := c.releases.setIfInBounds key c.emitHandle
    notes := c.notes.setIfInBounds key (if c.slurred then .offSlurred else .off) }

/-- The channel after the strike of a key was written. -/
def struck (c : Channel) (key velocity : Nat) : Channel :=
  { c with
    track := (c.emit (.noteOn c.number key velocity)).track
    notes := c.notes.setIfInBounds key (if c.slurred then .onSlurred else .on) }

/-- The tick at the end of a duration, which is read as a signed word. -/
def tickAfter (c : Channel) (duration : Nat) : Nat :=
  c.clock + (Bounded.signed 64 duration).toNat

section NoteState

variable {c : Channel} {key k velocity : Nat}

theorem noteState_setNote {state : NoteState} :
    { c with notes := c.notes.setIfInBounds key state }.noteState k =
      if key = k ∧ key < 128 then state else c.noteState k := by
  unfold noteState
  rw [Vector.getElem?_setIfInBounds]
  by_cases hkey : key = k
  · by_cases hlt : key < 128
    · rw [if_pos hkey, if_pos hlt, if_pos ⟨hkey, hlt⟩]
      rfl
    · rw [if_pos hkey, if_neg hlt, if_neg fun h => hlt h.2,
        Vector.getElem?_eq_none (Nat.le_of_not_lt (hkey ▸ hlt))]
  · rw [if_neg hkey, if_neg fun h => hkey h.1]

theorem noteState_struck : (c.struck key velocity).noteState k =
    if key = k ∧ key < 128 then (if c.slurred then .onSlurred else .on) else c.noteState k :=
  noteState_setNote

theorem noteState_released : (c.released key velocity).noteState k =
    if key = k ∧ key < 128 then (if c.slurred then .offSlurred else .off) else c.noteState k :=
  noteState_setNote

/-- A key that was just struck is not released. -/
theorem noteState_struck_ne (h : (c.struck key velocity).noteState k = .offSlurred) :
    c.noteState k = .offSlurred := by
  rw [noteState_struck] at h
  split at h
  · split at h <;> cases h
  · exact h

end NoteState

theorem controller_setController {c : Channel} {controller : Controller} {number n : Nat} :
    { c with controllers := c.controllers.setIfInBounds number controller }.controller n =
      if number = n ∧ number < 128 then controller else c.controller n := by
  unfold Channel.controller
  rw [Vector.getElem?_setIfInBounds]
  by_cases hn : number = n
  · by_cases hlt : number < 128
    · rw [if_pos hn, if_pos hlt, if_pos ⟨hn, hlt⟩]
      rfl
    · rw [if_pos hn, if_neg hlt, if_neg fun h => hlt h.2,
        Vector.getElem?_eq_none (Nat.le_of_not_lt (hn ▸ hlt))]
  · rw [if_neg hn, if_neg fun h => hn h.1]

section Recorded

variable {c : Channel} {key k velocity handle pulled : Nat}

/-- No release is recorded in a channel that goes on with another track. -/
theorem release?_of_replicate (h : c.releases = .replicate 128 none) (key : Nat) :
    c.release? key = none := by
  unfold release?
  rw [h, Vector.getElem?_replicate]
  split <;> rfl

theorem release?_setRelease {release : Option Nat} :
    { c with releases := c.releases.setIfInBounds key release }.release? k =
      if key = k ∧ key < 128 then release else c.release? k := by
  unfold release?
  rw [Vector.getElem?_setIfInBounds]
  by_cases hkey : key = k
  · by_cases hlt : key < 128
    · rw [if_pos hkey, if_pos hlt, if_pos ⟨hkey, hlt⟩]
      rfl
    · rw [if_pos hkey, if_neg hlt, if_neg fun h => hlt h.2,
        Vector.getElem?_eq_none (Nat.le_of_not_lt (hkey ▸ hlt))]
  · rw [if_neg hkey, if_neg fun h => hkey h.1]

theorem release?_released : (c.released key velocity).release? k =
    if key = k ∧ key < 128 then c.emitHandle else c.release? k :=
  release?_setRelease

theorem release?_takenBack : (c.takenBack key pulled).release? k =
    if key = k ∧ key < 128 then none else c.release? k :=
  release?_setRelease

theorem release?_eq_none_of_le (h : 128 ≤ key) : c.release? key = none := by
  unfold release?
  rw [Vector.getElem?_eq_none h]
  rfl

theorem lt_of_release? (h : c.release? key = some handle) : key < 128 := by
  refine Nat.lt_of_not_le fun hle => ?_
  rw [release?_eq_none_of_le hle] at h
  cases h

/-- After a release was written, it is the one that is recorded for its key. -/
theorem of_release?_released (h : (c.released key velocity).release? k = some handle) :
    (k ≠ key ∧ c.release? k = some handle) ∨
      (k = key ∧ c.muted = false ∧ handle = c.track.nextHandle) := by
  rw [release?_released] at h
  split at h
  · next hkey =>
    unfold emitHandle at h
    split at h
    · cases h
    · next hm =>
      cases h
      exact .inr ⟨hkey.1.symm, by simpa using hm, rfl⟩
  · next hkey =>
    refine .inl ⟨?_, h⟩
    rintro rfl
    rw [release?_eq_none_of_le (Nat.le_of_not_lt fun hlt => hkey ⟨rfl, hlt⟩)] at h
    cases h

/-- A key whose release was pulled out has none recorded. -/
theorem of_release?_takenBack (h : (c.takenBack key pulled).release? k = some handle) :
    k ≠ key ∧ c.release? k = some handle := by
  rw [release?_takenBack] at h
  split at h
  · cases h
  · next hkey =>
    refine ⟨?_, h⟩
    rintro rfl
    rw [release?_eq_none_of_le (Nat.le_of_not_lt fun hlt => hkey ⟨rfl, hlt⟩)] at h
    cases h

end Recorded

end Channel

namespace ChannelM

theorem eq_of_check {m : Message} {c c' : Channel} {u : Unit} (h : check m c = .ok u c') :
    m.validate = .ok () ∧ c' = c := by
  unfold check at h
  split at h
  · next hv =>
    cases h
    exact ⟨hv, rfl⟩
  · cases h

theorem eq_of_send {m : Message} {c c' : Channel} {u : Unit} (h : send m c = .ok u c') :
    m.validate = .ok () ∧ c' = c.emit m := by
  obtain ⟨_, c₁, h₁, h₂⟩ := bind_eq_ok h
  obtain ⟨hv, rfl⟩ := eq_of_check h₁
  cases h₂
  exact ⟨hv, rfl⟩

theorem get_bind {α : Type} (f : Channel → ChannelM α) (c : Channel) : (get >>= f) c = f c c :=
  rfl

theorem eq_of_ofOption {α : Type} {o : Option α} {a : α} {c c' : Channel}
    (h : ofOption o c = .ok a c') : o = some a ∧ c' = c :=
  ensures_ofOption (P := (· = c)) c a c' rfl h

theorem eq_of_ofExcept {α : Type} {r : Except Failure α} {a : α} {c c' : Channel}
    (h : ofExcept r c = .ok a c') : r = .ok a ∧ c' = c :=
  ensures_ofExcept (P := (· = c)) c a c' rfl h

theorem eq_of_noteOff {key velocity : Nat} {c c' : Channel} {u : Unit}
    (h : noteOff key velocity c = .ok u c') :
    (Message.noteOff c.number key velocity).validate = .ok () ∧ c' = c.released key velocity := by
  unfold noteOff at h
  rw [get_bind] at h
  obtain ⟨_, c₁, hcheck, hrest⟩ := bind_eq_ok h
  obtain ⟨hv, rfl⟩ := eq_of_check hcheck
  cases hrest
  refine ⟨hv, ?_⟩
  dsimp only
  rw [Channel.emit_eq]
  rfl

theorem eq_of_noteOn {key velocity : Nat} {c c' : Channel} {u : Unit}
    (h : noteOn key velocity c = .ok u c') :
    (Message.noteOn c.number key velocity).validate = .ok () ∧ c' = c.struck key velocity := by
  unfold noteOn at h
  rw [get_bind] at h
  obtain ⟨_, c₁, hsend, hrest⟩ := bind_eq_ok h
  obtain ⟨hv, rfl⟩ := eq_of_send hsend
  cases hrest
  refine ⟨hv, ?_⟩
  dsimp only
  rw [Channel.emit_eq]
  rfl

/-- A release that fails changes nothing. -/
theorem eq_of_noteOff_error {key velocity : Nat} {c c' : Channel} {cause : Failure}
    (h : noteOff key velocity c = .error cause c') : c' = c := by
  unfold noteOff at h
  rw [get_bind] at h
  cases hcheck : check (.noteOff c.number key velocity) c with
  | ok u c₁ =>
    rw [bind_of_ok hcheck] at h
    cases h
  | error e c₁ =>
    have hleaves := leaves_check (.noteOff c.number key velocity) c
    rw [leaves_of_error hcheck] at hleaves
    rw [bind_of_error hcheck, hleaves] at h
    cases h
    rfl

theorem of_retractRelease {key : Nat} {joined : Bool} {c c' : Channel}
    (h : retractRelease key c = .ok joined c') :
    (∃ handle, c.joinedRelease? key = .ok (some handle) ∧ c' = c.takenBack key handle ∧
        joined = true) ∨
      (c.joinedRelease? key = .ok none ∧ c' = c ∧ joined = false) := by
  unfold retractRelease at h
  rw [get_bind] at h
  obtain ⟨found, c₁, hfound, hrest⟩ := bind_eq_ok h
  obtain ⟨hj, rfl⟩ := eq_of_ofExcept hfound
  cases found with
  | some handle =>
    cases hrest
    exact .inl ⟨handle, hj, rfl, rfl⟩
  | none =>
    cases hrest
    exact .inr ⟨hj, rfl, rfl⟩

theorem retractRelease_of_joined {key handle : Nat} {c : Channel}
    (h : c.joinedRelease? key = .ok (some handle)) :
    retractRelease key c = .ok true (c.takenBack key handle) := by
  unfold retractRelease
  rw [get_bind, h]
  rfl

theorem retractRelease_of_apart {key : Nat} {c : Channel} (h : c.joinedRelease? key = .ok none) :
    retractRelease key c = .ok false c := by
  unfold retractRelease
  rw [get_bind, h]
  rfl

/-- A strike either pulls out the release that it joins and is softened, or it is as loud as it is
asked to be. -/
theorem of_attackVelocity {key velocity : Nat} {delta : Int} {c c' : Channel}
    (h : attackVelocity key delta c = .ok velocity c') :
    (∃ handle, c.joinedRelease? key = .ok (some handle) ∧ c' = c.takenBack key handle ∧
        c.dynamic.softened? delta = some velocity) ∨
      (c.joinedRelease? key = .ok none ∧ c' = c ∧ c.dynamic.louder? delta = some velocity) := by
  obtain ⟨joined, c₁, hretract, hrest⟩ := bind_eq_ok h
  rcases of_retractRelease hretract with ⟨handle, hj, rfl, rfl⟩ | ⟨hj, rfl, rfl⟩
  · rw [if_pos rfl, get_bind] at hrest
    obtain ⟨hv, rfl⟩ := eq_of_ofOption hrest
    exact .inl ⟨handle, hj, rfl, hv⟩
  · rw [if_neg Bool.false_ne_true, get_bind] at hrest
    obtain ⟨hv, rfl⟩ := eq_of_ofOption hrest
    exact .inr ⟨hj, rfl, hv⟩

/-- A channel that is not slurring strikes keys as loud as it is asked to. -/
theorem attackVelocity_of_not_slurred {c : Channel} (h : c.slurred = false)
    (key : Nat) (delta : Int) :
    attackVelocity key delta c = ofOption (c.dynamic.louder? delta) c := by
  have hjoined : c.joinedRelease? key = .ok none := by
    unfold Channel.joinedRelease?
    rw [h]
    rfl
  exact bind_of_ok (retractRelease_of_apart hjoined)

theorem eq_of_later {delta : Int} {action : Action} {c c' : Channel} {u : Unit}
    (h : later delta action c = .ok u c') :
    c' = { c with pending := c.pending.push (c.clock + delta.toNat) action } := by
  unfold later at h
  rw [get_bind] at h
  obtain ⟨tick, c₁, htick, hrest⟩ := bind_eq_ok h
  obtain ⟨ht, rfl⟩ := eq_of_ofOption htick
  cases hrest
  have hsum : tick = c₁.clock + delta.toNat := by
    split at ht
    · cases ht
      omega
    · exact (Bounded.nat?_eq_some_iff.1 ht).2.symm
  rw [hsum]

/-- What is promised is due no earlier than now and no later than it was asked for. -/
theorem of_later {delta : Int} {action : Action} {c c' : Channel} {u : Unit}
    (h : later delta action c = .ok u c') :
    ∃ tick, c.clock ≤ tick ∧ tick ≤ c.clock + delta.toNat ∧
      c' = { c with pending := c.pending.push tick action } :=
  ⟨_, Nat.le_add_right .., Nat.le_refl _, eq_of_later h⟩

/-- A promise that fails changes nothing. -/
theorem eq_of_later_error {delta : Int} {action : Action} {c c' : Channel} {cause : Failure}
    (h : later delta action c = .error cause c') : c' = c := by
  unfold later at h
  rw [get_bind] at h
  split at h
  · cases h
  · cases hn : Bounded.nat? 64 (c.clock + delta.toNat) with
    | none =>
      rw [hn] at h
      cases h
      rfl
    | some n =>
      rw [hn] at h
      cases h

theorem signed_le (duration : Nat) : Bounded.signed 64 duration ≤ duration := by
  have hle : (duration : Int) % (1 <<< 64 : Nat) ≤ duration := by
    exact_mod_cast Nat.mod_le duration (1 <<< 64)
  unfold Bounded.signed
  rw [Int.bmod_def]
  split
  · exact hle
  · omega

theorem eq_of_after {duration : Nat} {action : Action} {c c' : Channel} {u : Unit}
    (h : after duration action c = .ok u c') :
    c' = { c with pending := c.pending.push (c.tickAfter duration) action } :=
  eq_of_later h

theorem of_after {duration : Nat} {action : Action} {c c' : Channel} {u : Unit}
    (h : after duration action c = .ok u c') :
    ∃ tick, c.clock ≤ tick ∧ tick ≤ c.clock + duration ∧
      c' = { c with pending := c.pending.push tick action } := by
  have := signed_le duration
  refine ⟨c.tickAfter duration, Nat.le_add_right .., ?_, eq_of_after h⟩
  unfold Channel.tickAfter
  omega

theorem eq_of_setController {number value : Nat} {c c' : Channel} {u : Unit}
    (h : setController number value c = .ok u c') :
    c' = { c with
      track := (c.emit (.controlChange c.number number value)).track
      controllers := c.controllers.setIfInBounds number ((c.controller number).set value) } := by
  unfold setController at h
  rw [get_bind] at h
  obtain ⟨_, c₁, hsend, hrest⟩ := bind_eq_ok h
  obtain ⟨-, rfl⟩ := eq_of_send hsend
  cases hrest
  dsimp only
  rw [Channel.emit_eq]
  rfl

theorem eq_of_setBend {value : Nat} {c c' : Channel} {u : Unit} (h : setBend value c = .ok u c') :
    c' = { c with
      track := (c.emit (.pitchBend c.number value)).track
      bend := value } := by
  unfold setBend at h
  rw [get_bind] at h
  obtain ⟨_, c₁, hsend, hrest⟩ := bind_eq_ok h
  obtain ⟨-, rfl⟩ := eq_of_send hsend
  cases hrest
  dsimp only
  rw [Channel.emit_eq]

/-- `c'` is `c` after something that is no note: at most a message was written. -/
def Aside (c c' : Channel) : Prop :=
  ∃ track controllers dynamic bend, c' = { c with track, controllers, dynamic, bend } ∧
    (track = c.track ∨
      ∃ m, m.isNoteOn = false ∧ m.isNoteOff = false ∧ track = (c.write m).track)

theorem track_emit {m : Message} (c : Channel) (hon : m.isNoteOn = false)
    (hoff : m.isNoteOff = false) :
    (c.emit m).track = c.track ∨
      ∃ m', m'.isNoteOn = false ∧ m'.isNoteOff = false ∧
        (c.emit m).track = (c.write m').track := by
  unfold Channel.emit
  split
  · exact .inl rfl
  · exact .inr ⟨m, hon, hoff, rfl⟩

theorem aside_of_setController {number value : Nat} {c c' : Channel} {u : Unit}
    (h : setController number value c = .ok u c') : Aside c c' :=
  ⟨_, _, _, _, eq_of_setController h, track_emit c rfl rfl⟩

/-- An action that neither strikes nor releases a key is an aside. -/
theorem aside_of_run {a : Action} {c c' : Channel} {u : Unit} (ha : a.noteKey? = none)
    (h : run a c = .ok u c') : Aside c c' := by
  have hbend : ∀ value, setBend value c = .ok u c' → Aside c c' :=
    fun value h => ⟨_, _, _, _, eq_of_setBend h, track_emit c rfl rfl⟩
  cases a with
  | noteOff key velocity => cases ha
  | play key delta duration offVelocity => cases ha
  | setDynamic dynamic =>
    cases h
    exact ⟨c.track, c.controllers, dynamic, c.bend, rfl, .inl rfl⟩
  | turnKnob number value => exact aside_of_setController h
  | pressPedal number => exact aside_of_setController h
  | releasePedal number => exact aside_of_setController h
  | bend value => exact hbend value h
  | resetBend => exact hbend bendCenter h

/-- A strike takes a release back that it joins, writes its note and promises its release. -/
theorem of_strike {key duration offVelocity : Nat} {delta : Int} {c c' : Channel} {u : Unit}
    (h : strike key delta duration offVelocity c = .ok u c') :
    ∃ velocity c₁ tick,
      ((∃ handle, c.joinedRelease? key = .ok (some handle) ∧ c₁ = c.takenBack key handle ∧
          c.dynamic.softened? delta = some velocity) ∨
        (c.joinedRelease? key = .ok none ∧ c₁ = c ∧ c.dynamic.louder? delta = some velocity)) ∧
      (Message.noteOn c.number key velocity).validate = .ok () ∧
      c.clock ≤ tick ∧ tick ≤ c.clock + duration ∧
      c' = { c₁.struck key velocity with
        pending := c₁.pending.push tick (.noteOff key offVelocity) } := by
  obtain ⟨velocity, c₁, hattack, hrest⟩ := bind_eq_ok h
  obtain ⟨_, c₂, hon, hafter⟩ := bind_eq_ok hrest
  obtain ⟨hvalid, rfl⟩ := eq_of_noteOn hon
  obtain ⟨tick, hge, hle, rfl⟩ := of_after hafter
  have hcases := of_attackVelocity hattack
  have hsame : c₁.number = c.number ∧ c₁.clock = c.clock := by
    rcases hcases with ⟨handle, -, rfl, -⟩ | ⟨-, rfl, -⟩ <;> exact ⟨rfl, rfl⟩
  obtain ⟨hnumber, hclock⟩ := hsame
  exact ⟨velocity, c₁, tick, hcases, hnumber ▸ hvalid, hclock ▸ hge, hclock ▸ hle, rfl⟩

theorem pending_of_strike {key duration offVelocity : Nat} {delta : Int} {c c' : Channel} {u : Unit}
    (h : strike key delta duration offVelocity c = .ok u c') :
    c'.pending = c.pending.push (c.tickAfter duration) (.noteOff key offVelocity) := by
  obtain ⟨velocity, c₁, hattack, hrest⟩ := bind_eq_ok h
  obtain ⟨_, c₂, hon, hafter⟩ := bind_eq_ok hrest
  obtain ⟨-, rfl⟩ := eq_of_noteOn hon
  obtain rfl := eq_of_after hafter
  rcases of_attackVelocity hattack with ⟨handle, -, rfl, -⟩ | ⟨-, rfl, -⟩ <;> rfl

end ChannelM

end MidiScore
