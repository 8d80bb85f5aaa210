import MidiScore.Proofs.Channel.Playing
import MidiScore.Proofs.Channel.Reachable
import MidiScore.Proofs.Channel.Score
import MidiScore.Proofs.Channel.Softened

/-!
# Slurred phrases are legato

An element of a slurred phrase is played by doing or promising what is owed (`Playing`); what is
still to be struck of a chord is owed like an action that is due. So an element leaves nothing owed
to the next one, and what a phrase wrote keeps strikes apart from releases (`legato_of_playPhrase`).
-/

namespace MidiScore

open Channel

namespace ChannelM

variable {c₀ : Channel} {start limit : Nat} {due : List Action}

theorem playing_run (a : Action) :
    Ensures (Playing c₀ start limit (a :: due)) (run a) fun _ => Playing c₀ start limit due := by
  intro c u c' h hrun
  have haside : a.noteKey? = none → Playing c₀ start limit due c' :=
    fun hnone => h.tail.aside (aside_of_run hnone hrun)
  cases a with
  | noteOff key velocity =>
    obtain ⟨hvalid, rfl⟩ := eq_of_noteOff hrun
    exact h.released (Message.key_lt_of_validate hvalid)
  | play key delta duration offVelocity =>
    obtain ⟨velocity, c₁, tick, hcases, hvalid, hge, hle, rfl⟩ := of_strike hrun
    refine h.struck (Message.key_lt_of_validate hvalid) hge hle ?_
    rcases hcases with ⟨handle, hj, hc₁, -⟩ | ⟨hj, hc₁, -⟩
    · exact .inl ⟨handle, hj, hc₁⟩
    · exact .inr ⟨hj, hc₁⟩
  | _ => exact haside rfl

theorem clocked_playing : Clocked (Playing c₀ start limit) where
  pop hpop h := h.pop hpop
  run a _ := playing_run a
  rest hpop hle h := h.rest hpop hle

theorem playing_setController (number value : Nat) :
    Keeps (Playing c₀ start limit due) (setController number value) := by
  intro c u c' h hset
  exact h.aside (aside_of_setController hset)

theorem playing_later {a : Action} (delta : Int) (ha : a.noteKey? = none) :
    Keeps (Playing c₀ start limit due) (later delta a) := by
  intro c u c' h hlater
  obtain ⟨tick, hge, -, rfl⟩ := of_later hlater
  exact h.push (h.owed.cons_aside ha hge)

/-! ### Sounds -/

/-- The strikes that tones ask for, as actions. -/
def plays (c : Channel) (delta : Int) (duration offVelocity : Nat) (tones : List Pitch) :
    List Action :=
  (tones.filterMap c.soundingKey).map fun key => .play key delta duration offVelocity

theorem plays_cons_of_some {c : Channel} {delta : Int} {duration offVelocity key : Nat} {p : Pitch}
    {tones : List Pitch} (h : c.soundingKey p = some key) :
    plays c delta duration offVelocity (p :: tones) =
      .play key delta duration offVelocity :: plays c delta duration offVelocity tones := by
  unfold plays
  rw [List.filterMap_cons_some h, List.map_cons]

theorem plays_cons_of_none {c : Channel} {delta : Int} {duration offVelocity : Nat} {p : Pitch}
    {tones : List Pitch} (h : c.soundingKey p = none) :
    plays c delta duration offVelocity (p :: tones) =
      plays c delta duration offVelocity tones := by
  unfold plays
  rw [List.filterMap_cons_none h]

section Tones

variable {delta : Int} {duration offVelocity : Nat} {p : Pitch} {tones : List Pitch}

/-- A tone is struck that is owed. -/
theorem playing_playNote :
    Ensures (Playing c₀ start limit (plays c₀ delta duration offVelocity (p :: tones)))
      (playNote p delta duration offVelocity)
      fun _ => Playing c₀ start limit (plays c₀ delta duration offVelocity tones) := by
  intro c u c' h hplay
  unfold playNote at hplay
  rw [get_bind, h.soundingKey] at hplay
  cases hkey : c₀.soundingKey p with
  | some key =>
    rw [hkey] at hplay
    rw [plays_cons_of_some hkey] at h
    exact playing_run _ c u c' h hplay
  | none =>
    rw [hkey] at hplay
    rw [plays_cons_of_none hkey] at h
    cases hplay
    exact h

theorem playing_chord :
    Ensures (Playing c₀ start limit (plays c₀ delta duration offVelocity tones))
      (tones.forM fun p => playNote p delta duration offVelocity)
      fun _ => Playing c₀ start limit [] := by
  induction tones with
  | nil => exact keeps_pure _
  | cons p rest ih => exact playing_playNote.bind fun _ => ih

/-- A tone of a roll enters late, but it ends with the others. -/
theorem playing_rollTone {size i : Nat} (hi : i ≤ size) :
    Ensures (Playing c₀ start limit (plays c₀ 0 duration offVelocity (p :: tones)))
      (rollTone size duration offVelocity (p, i))
      fun _ => Playing c₀ start limit (plays c₀ 0 duration offVelocity tones) := by
  intro c u c' h hroll
  obtain ⟨product, c₁, hproduct, hroll⟩ := bind_eq_ok hroll
  obtain ⟨hn, rfl⟩ := eq_of_ofOption hproduct
  obtain ⟨-, rfl⟩ := Bounded.nat?_eq_some_iff.1 hn
  dsimp only at hroll
  have hdelay : duration * i / (size * 4) ≤ duration := by
    refine Nat.div_le_of_le_mul ?_
    rw [Nat.mul_comm (size * 4)]
    exact Nat.mul_le_mul_left _ (by omega)
  generalize duration * i / (size * 4) = delay at hroll hdelay
  by_cases hzero : delay = 0
  · rw [if_pos hzero, hzero] at hroll
    exact playing_playNote c₁ u c' h hroll
  · rw [if_neg hzero, get_bind, h.soundingKey] at hroll
    cases hkey : c₀.soundingKey p with
    | some key =>
      rw [hkey] at hroll
      rw [plays_cons_of_some hkey] at h
      obtain ⟨tick, hge, hle, rfl⟩ := of_after hroll
      have hmeets : c₁.clock + duration ≤ limit := (List.forall_mem_cons.1 h.owed.meets).1
      refine h.tail.push (h.owed.replace rfl hge ?_ fun _ _ heq => by cases heq)
      show tick + (duration - delay) ≤ limit
      omega
    | none =>
      rw [hkey] at hroll
      rw [plays_cons_of_none hkey] at h
      cases hroll
      exact h

theorem playing_roll {size k : Nat} (h : k + tones.length ≤ size) :
    Ensures (Playing c₀ start limit (plays c₀ 0 duration offVelocity tones))
      ((tones.zipIdx k).forM (rollTone size duration offVelocity))
      fun _ => Playing c₀ start limit [] := by
  induction tones generalizing k with
  | nil => exact keeps_pure _
  | cons p rest ih =>
    rw [List.length_cons] at h
    exact (playing_rollTone (by omega)).bind fun _ => ih (by omega)

theorem playing_glissando :
    Ensures (Playing c₀ start limit (plays c₀ 0 duration offVelocity [p]))
      (glissando p duration offVelocity) fun _ => Playing c₀ start limit [] := by
  refine playing_playNote.bind fun _ => ?_
  refine Ensures.bind (keeps_forM fun step _ => ?_) fun _ => playing_later _ rfl
  exact (keeps_ofOption _).bind fun _ => playing_later _ rfl

end Tones

theorem playing_strikePlayable (p : Playable) (a : Articulation) (duration : Nat) :
    Ensures (Playing c₀ start limit (plays c₀ a.attackDelta duration a.offVelocity p.tones))
      (strikePlayable p a duration) fun _ => Playing c₀ start limit [] := by
  cases p with
  | pitch p =>
    cases a with
    | gliscando => exact playing_glissando
    | _ => exact playing_playNote
  | chord chord =>
    cases a with
    | gliscando =>
      show Ensures _ (roll chord duration _) _
      rw [roll_eq]
      exact playing_roll (Nat.le_of_eq (Nat.zero_add _))
    | _ => exact playing_chord

/-- The tones of an element sound different keys, and it ends with its beat at the latest. -/
structure Fits (c : Channel) (element : Sound × Beat) : Prop where
  keys : (element.1.playable.tones.filterMap c.soundingKey).Nodup
  length : element.1.playable.isRest = false →
    element.1.articulation.soundingTicks (c.timing.ticksInBeat element.2) ≤
      c.timing.ticksInBeat element.2

theorem playing_playSound {s : Sound} {b : Beat} (hfits : Fits c₀ (s, b)) :
    Ensures (Waiting c₀ true) (playSound s b)
      fun _ c => ∃ start, Playing c₀ start (start + c₀.timing.ticksInBeat b) [] c := by
  intro c u c' h hplay
  unfold playSound at hplay
  by_cases hrest : s.playable.isRest
  · rw [if_pos hrest] at hplay
    cases hplay
    have hnone : Playing c₀ c.clock (c.clock + c₀.timing.ticksInBeat b)
        (([] : List Nat).map fun key => .play key 0 0 0) c := h.ask .nil (Nat.zero_le _)
    exact ⟨c.clock, hnone⟩
  · rw [if_neg hrest, get_bind, h.timing] at hplay
    have hask : Playing c₀ c.clock (c.clock + c₀.timing.ticksInBeat b)
        (plays c₀ s.articulation.attackDelta
          (s.articulation.soundingTicks (c₀.timing.ticksInBeat b)) s.articulation.offVelocity
          s.playable.tones) c :=
      h.ask hfits.keys (hfits.length (by simpa using hrest))
    obtain ⟨restores, c₁, hknobs, hplay⟩ := bind_eq_ok hplay
    obtain ⟨_, c₂, hstrike, hrestore⟩ := bind_eq_ok hplay
    have h₁ := compositional_keeps.turnKnobs (fun _ _ => playing_setController _) c restores c₁ hask
      hknobs
    have h₂ := playing_strikePlayable _ _ _ c₁ _ c₂ h₁ hstrike
    exact ⟨c.clock, keeps_forM (fun _ _ => playing_later _ rfl) c₂ u c' h₂ hrestore⟩

theorem waiting_advanceBeat (b : Beat) :
    Ensures (fun c => ∃ start, Playing c₀ start (start + c₀.timing.ticksInBeat b) [] c)
      (advanceBeat b) fun _ => Waiting c₀ true := by
  rintro c t c' ⟨start, h⟩ hadvance
  obtain ⟨hclock, hlt⟩ := of_advanceBeat hadvance
  rw [h.timing] at hclock
  have hstarted := h.started
  refine (clocked_playing.advanceBeat b c t c' h hadvance).waiting fun q hq => ?_
  have := hlt q hq
  omega

theorem waiting_changeSlur (slurring : Bool) :
    Ensures (Waiting c₀ slurring) (changeSlur slurring true) fun _ => Waiting c₀ true := by
  cases slurring with
  | true => exact keeps_pure _
  | false =>
    have hpress : Keeps (Waiting c₀ false) (pressPedal Controller.sustain) :=
      fun c u c' h hpress => h.aside (aside_of_setController hpress)
    exact hpress.bind fun _ => ensures_modify fun c h => h.slur true

theorem parted_playElements {l : List (Sound × Beat)} (slurring : Bool)
    (hslurred : ∀ element ∈ l, element.2.slurred) (hfits : ∀ element ∈ l, Fits c₀ element) :
    Ensures (Waiting c₀ slurring) (playElements slurring l)
      fun _ => Parted c₀.track.nextHandle := by
  induction l generalizing slurring with
  | nil => exact ensures_pure fun _ h => h.parted
  | cons element rest ih =>
    obtain ⟨hs, hslurred⟩ := List.forall_mem_cons.1 hslurred
    obtain ⟨hfit, hfits⟩ := List.forall_mem_cons.1 hfits
    unfold playElements
    rw [hs]
    refine (waiting_changeSlur slurring).bind fun _ => (playing_playSound hfit).bind fun _ => ?_
    exact (waiting_advanceBeat _).bind fun _ => ih true hslurred hfits

theorem parted_playPhrase {p : Phrase} (hslurred : ∀ element ∈ p.elements, element.2.slurred)
    (hfits : ∀ element ∈ p.elements, Fits c₀ element) :
    Ensures (Waiting c₀ false) (playPhrase p) fun _ => Parted c₀.track.nextHandle := by
  unfold playPhrase
  split
  · exact ensures_pure fun _ h => h.parted
  · refine Ensures.get_bind fun _ => (parted_playElements false hslurred hfits).bind fun _ => ?_
    refine (ensures_modify fun c h => h.congr rfl rfl rfl (Nat.le_refl _)).bind fun _ => ?_
    have hrelease : Keeps (Parted c₀.track.nextHandle) (releasePedal Controller.sustain) :=
      fun c u c' h hrelease => h.aside (aside_of_setController hrelease)
    exact hrelease.bind fun _ => Ensures.get_bind fun _ => keeps_pure _

theorem waiting_of_reachable {c : Channel} (hc : c.Reachable) (hm : c.muted = false)
    (hs : c.slurred = false) (hidle : ∀ q ∈ c.pending.toList, q.2.noteKey? = none) :
    Waiting c false c :=
  ⟨⟨.start c, rfl, rfl, hm⟩, hs, (consistent_of_reachable hc).timely, hidle⟩

theorem loud_of_noteKey?_eq_none {a : Action} (h : a.noteKey? = none) : a.Loud := by
  cases a with
  | noteOff => cases h
  | play => cases h
  | _ => trivial

/-- A phrase that is slurred throughout is legato. Let a channel promise no strike and no release
when it begins, let the tones of each chord sound different keys, and let no sound outlast its beat.
Then among the events that the phrase wrote, in the order in which they are listed, no key is struck
after a release of it within a tick, and each note-on was written by a strike that is softened if it
took a release back. -/
theorem legato_of_playPhrase {c c' : Channel} {p : Phrase} {t : Nat} (hc : c.Reachable)
    (hm : c.muted = false) (hs : c.slurred = false)
    (hidle : ∀ q ∈ c.pending.toList, q.2.noteKey? = none)
    (hslurred : ∀ element ∈ p.elements, element.2.slurred)
    (hkeys : ∀ element ∈ p.elements, ∀ chord, element.1.playable = .chord chord →
      (chord.tones.filterMap c.soundingKey).Nodup)
    (hlength : ∀ element ∈ p.elements, element.1.playable.isRest = false →
      element.1.articulation.soundingTicks (c.timing.ticksInBeat element.2) ≤
        c.timing.ticksInBeat element.2)
    (h : playPhrase p c = .ok t c') :
    (c'.track.writtenSince c.track.nextHandle).Sublist c'.track.events ∧
      Legato (c'.track.writtenSince c.track.nextHandle) ∧
      c'.track.TellsOf (p.strikes c) c.track.nextHandle := by
  have hfits : ∀ element ∈ p.elements, Fits c element := by
    intro element hmem
    refine ⟨?_, hlength element hmem⟩
    cases hplayable : element.1.playable with
    | chord chord => exact hkeys element hmem chord hplayable
    | pitch p =>
      show ([p].filterMap c.soundingKey).Nodup
      rw [List.filterMap_cons]
      cases c.soundingKey p <;> simp
  have hparted := parted_playPhrase hslurred hfits c t c' (waiting_of_reachable hc hm hs hidle) h
  have hnotes := chronicle_notesOf.playPhrase p [] c t c' (.start c.track) h
  have hinsists := chronicle_insists.playPhrase p [] c t c'
    ⟨nofun, fun q hq => loud_of_noteKey?_eq_none (hidle q hq), nofun⟩ h
  exact ⟨hparted.legato.1, hparted.legato.2, hnotes.tellsOf hinsists.past⟩

/-- A strum between repeated notes, all slurred, with a beat of one tick and one of none. -/
def slurredRepeats : Phrase where
  melody := ⟨[⟨.pitch .c, .plain⟩, ⟨.pitch .c, .accent⟩, ⟨.chord ⟨[.c, .e, .g]⟩, .gliscando⟩,
    ⟨.pitch .e, .staccato⟩, ⟨.chord ⟨[.rest, .rest]⟩, .tenuto⟩, ⟨.pitch .e, .marcato⟩]⟩
  rhythm := ⟨[⟨0.5, true⟩, ⟨1 / 960, true⟩, ⟨1, true⟩, ⟨0, true⟩]⟩

/-- Slurred repeats, with the dynamic changing in their course. -/
def beforeRepeats : List Operation :=
  [.playPhrase slurredRepeats, .later 700 (.setDynamic .ppp), .later 0 (.turnKnob 72 20)]

/-- The channel on which the repeats are played again. -/
def repeated : Channel :=
  ({ track := { channel := 0 } } : Channel).performAll beforeRepeats

theorem legato_of_playPhrase_slurredRepeats :
    repeated.Reachable ∧ repeated.muted = false ∧ repeated.slurred = false ∧
      (∀ q ∈ repeated.pending.toList, q.2.noteKey? = none) ∧
      (∀ element ∈ slurredRepeats.elements, element.2.slurred) ∧
      (∀ element ∈ slurredRepeats.elements, ∀ chord, element.1.playable = .chord chord →
        (chord.tones.filterMap repeated.soundingKey).Nodup) ∧
      (∀ element ∈ slurredRepeats.elements, element.1.playable.isRest = false →
        element.1.articulation.soundingTicks (repeated.timing.ticksInBeat element.2) ≤
          repeated.timing.ticksInBeat element.2) ∧
      ∃ t c', playPhrase slurredRepeats repeated = .ok t c' ∧
        (c'.track.writtenSince repeated.track.nextHandle).Sublist c'.track.events ∧
        Legato (c'.track.writtenSince repeated.track.nextHandle) ∧
        c'.track.TellsOf (slurredRepeats.strikes repeated) repeated.track.nextHandle := by
  have hreach : repeated.Reachable :=
    ⟨{ channel := 0 }, false, .standard, _, beforeRepeats, rfl, rfl⟩
  obtain ⟨hmuted, hslurred, hidle⟩ : repeated.muted = false ∧ repeated.slurred = false ∧
      ∀ q ∈ repeated.pending.toList, q.2.noteKey? = none := by decide +kernel
  have hbeats : ∀ element ∈ slurredRepeats.elements, element.2.slurred := by decide +kernel
  have htones : ∀ element ∈ slurredRepeats.elements,
      (element.1.playable.tones.filterMap repeated.soundingKey).Nodup := by decide +kernel
  have hkeys : ∀ element ∈ slurredRepeats.elements, ∀ chord, element.1.playable = .chord chord →
      (chord.tones.filterMap repeated.soundingKey).Nodup := by
    intro element hmem chord hchord
    have hnodup := htones element hmem
    rw [hchord] at hnodup
    exact hnodup
  have hlength : ∀ element ∈ slurredRepeats.elements, element.1.playable.isRest = false →
      element.1.articulation.soundingTicks (repeated.timing.ticksInBeat element.2) ≤
        repeated.timing.ticksInBeat element.2 := by decide +kernel
  obtain ⟨t, h⟩ := eq_ok_of_succeeds (m := playPhrase slurredRepeats) (c := repeated)
    (by decide +kernel)
  exact ⟨hreach, hmuted, hslurred, hidle, hbeats, hkeys, hlength, t, _, h,
    legato_of_playPhrase hreach hmuted hslurred hidle hbeats hkeys hlength h⟩

end ChannelM

end MidiScore
