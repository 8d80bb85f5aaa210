import MidiScore.Proofs.Channel.Muted
import MidiScore.Proofs.Channel.Passages
import MidiScore.Proofs.Channel.Softened

/-!
# The sustain pedal in a phrase

A phrase puts the sustain pedal down where a slur begins and up behind it, and up once more at its
end. On a channel that sounds and has promised nothing to the pedal, these are all the moves of the
pedal (`pedalled_of_playPhrase`), and each is written in its place: ahead of every strike of its
passage and behind every release that was due. There are no other strikes: every note-on that the
phrase writes is that of one of them.
-/

namespace MidiScore

/-- Whether the message moves the sustain pedal. -/
def Message.isSustain : Message → Bool
  | controlChange _ number _ => number = Controller.sustain
  | _ => false

namespace Phrase

/-- The tick on which element `i` begins if `c` plays the phrase. -/
def startTick (p : Phrase) (c : Channel) (i : Nat) : Nat :=
  c.clock + p.ticksBefore c i

/-- The moves of the pedal: down where a slur begins, up where an element follows a slur, and up at
the end. -/
def pedalling (p : Phrase) (c : Channel) : List Event :=
  ((p.slurs.flatMap p.slurEdges).map fun e => c.pedalEvent (p.startTick c e.1) e.2) ++
    [c.pedalEvent (p.startTick c p.size) false]

/-- The moves of the pedal before element `k`. -/
def pedallingBefore (p : Phrase) (c : Channel) (k : Nat) : List Event :=
  ((List.range k).filter fun i => p.slurredAt i ≠ p.slurredBefore i).map fun i =>
    c.pedalEvent (p.startTick c i) (p.slurredAt i)

variable {p : Phrase} {c : Channel} {k : Nat}

theorem pedalling_eq (p : Phrase) (c : Channel) :
    p.pedalling c = p.pedallingBefore c p.size ++ [c.pedalEvent (p.startTick c p.size) false] := by
  unfold pedalling
  rw [← p.slurChanges_eq, List.map_map]
  rfl

theorem pedallingBefore_succ : p.pedallingBefore c (k + 1) = p.pedallingBefore c k ++
    if p.slurredAt k ≠ p.slurredBefore k then [c.pedalEvent (p.startTick c k) (p.slurredAt k)]
    else [] := by
  unfold pedallingBefore
  rw [List.range_succ, List.filter_append, List.map_append]
  by_cases h : p.slurredAt k ≠ p.slurredBefore k
  · rw [if_pos h, List.filter_cons_of_pos (by simpa using h), List.filter_nil, List.map_singleton]
  · rw [if_neg h, List.filter_cons_of_neg (by simpa using h), List.filter_nil, List.map_nil]

theorem startTick_succ {element : Sound × Beat} (h : p.element? k = some element) :
    p.startTick c (k + 1) = p.startTick c k + c.timing.ticksInBeat element.2 := by
  unfold startTick
  rw [p.ticksBefore_succ, h, Nat.add_assoc]

end Phrase

open Channel ChannelM

/-! ## What comes of a channel -/

/-- `c'` came of `c` by changes that neither mute the channel nor replace its track. -/
abbrev Channel.Becomes (c c' : Channel) : Prop :=
  Changes (.setSlurred true) c c'

namespace Channel.Becomes

variable {c c' : Channel} {handle : Nat} {e : Event}

theorem consistent (h : Becomes c c') (hc : Consistent c) : Consistent c' :=
  h.preserve (fun hchange hc => hc.change hchange) hc

theorem descends (h : Becomes c c') : Descends True c c' := by
  have hop : ∀ t, Operation.setSlurred true ≠ .replaceTrack t := nofun
  exact h.preserve (fun hchange hd => hd.change hop (fun _ => trivial) hchange)
    (.refl fun _ => trivial)

theorem handle_le (h : Becomes c c') : c.track.nextHandle ≤ c'.track.nextHandle :=
  h.descends.handle_le

/-- Only releases are ever pulled out. -/
theorem get? (h : Becomes c c') (hc : Consistent c) (he : c.track.get? handle = some e)
    (hm : e.message.isNoteOff = false) : c'.track.get? handle = some e := by
  rcases h.descends.event handle e he with hkept | ⟨-, key, -, hrelease, -⟩
  · exact hkept
  · obtain ⟨channel, velocity, hoff⟩ := hc.release key handle e hrelease he
    rw [hoff] at hm
    cases hm

end Channel.Becomes

namespace ChannelM

variable {slurring : Bool} {c c' : Channel} {u : Unit}

theorem soundable_becomes {c₀ : Channel} : Soundable (Lasts (Becomes c₀)) :=
  covers_change.tunable.toSoundable

theorem becomes_changeSlur {slurred : Bool} (h : changeSlur slurring slurred c = .ok u c') :
    Becomes c c' := by
  rw [← leaves_of_ok h]
  exact compositional_lasts.changeSlur changes_setController (changes_setSlurred _ fun _ => rfl) _
    .refl

theorem Succeeds.becomes_after {v : Passage} (h : Succeeds slurring v) :
    Becomes v.begun v.after := by
  obtain ⟨t, hadvance⟩ := h.advance
  have hstruck := soundable_becomes.playSound v.sound v.beat v.begun .refl
  rw [leaves_of_ok h.sound] at hstruck
  rw [← leaves_of_ok hadvance]
  exact soundable_becomes.advanceBeat v.beat v.struck hstruck

theorem becomes_playElements {l : List (Sound × Beat)}
    (h : playElements slurring l c = .ok u c') : Becomes c c' := by
  rw [← leaves_of_ok h]
  exact soundable_becomes.playElements slurring (fun _ _ => changes_setSlurred _ fun _ => rfl) c
    .refl

end ChannelM

/-! ## What is written to the pedal -/

/-- The moves of the pedal that were written under handles from `base` on. -/
def Channel.pedalled (base : Nat) (c : Channel) : List Event :=
  (c.track.writtenSince base).filter (·.message.isSustain)

namespace Channel

variable {base : Nat} {c : Channel} {m : Message}

theorem pedalled_write (h : base ≤ c.track.nextHandle) :
    (c.write m).pedalled base = c.pedalled base ++ if m.isSustain then [⟨c.clock, m⟩] else [] := by
  unfold pedalled write
  rw [Track.writtenSince_push h, List.filter_append]
  cases hm : m.isSustain <;> simp [hm]

theorem pedalled_emit (h : base ≤ c.track.nextHandle) (hm : m.isSustain = false) :
    (c.emit m).pedalled base = c.pedalled base := by
  unfold emit
  split
  · rfl
  · rw [pedalled_write h, hm, if_neg Bool.false_ne_true, List.append_nil]

theorem pedalled_takenBack {key handle : Nat} (hc : Consistent c)
    (hj : c.joinedRelease? key = .ok (some handle)) :
    (c.takenBack key handle).pedalled base = c.pedalled base := by
  obtain ⟨-, -, hrelease, e, he, -⟩ := exists_of_joinedRelease? hj
  obtain ⟨channel, velocity, hm⟩ := hc.release key handle e hrelease he
  have hunseen : Option.guard (·.message.isSustain) e = none := by
    rw [Option.guard_eq_none_iff, hm]
    rfl
  unfold pedalled takenBack
  rw [← List.filterMap_eq_filter, Track.filterMap_writtenSince_erase he hunseen]

/-- Since `c₀` the pedal was moved by `events`, and no action that is due or pending moves it. -/
structure Treads (c₀ : Channel) (events : List Event) (due : List Action) (c : Channel) : Prop where
  becomes : Becomes c₀ c
  confined : Confined (· ≠ Controller.sustain) due c
  pedalled : c.pedalled c₀.track.nextHandle = events

end Channel

namespace ChannelM

section Treads

variable {c₀ : Channel} {events : List Event} {due : List Action} {c c' : Channel} {u : Unit}

theorem pedalled_strike {key duration offVelocity : Nat} {delta : Int} {base : Nat}
    (hc : Consistent c) (hbase : base ≤ c.track.nextHandle)
    (h : strike key delta duration offVelocity c = .ok u c') :
    c'.pedalled base = c.pedalled base := by
  obtain ⟨velocity, c₁, tick, hcases, -, -, -, rfl⟩ := of_strike h
  have hstruck : ∀ c₁ : Channel, base ≤ c₁.track.nextHandle →
      (c₁.struck key velocity).pedalled base = c₁.pedalled base := fun c₁ hbase =>
    pedalled_emit hbase rfl
  rcases hcases with ⟨handle, hj, rfl, -⟩ | ⟨-, rfl, -⟩
  · refine (hstruck _ ?_).trans (pedalled_takenBack hc hj)
    rwa [takenBack, Track.nextHandle_erase]
  · exact hstruck _ hbase

theorem pedalled_setController {number value base : Nat} (hnumber : number ≠ Controller.sustain)
    (hbase : base ≤ c.track.nextHandle) (h : setController number value c = .ok u c') :
    c'.pedalled base = c.pedalled base := by
  rw [eq_of_setController h]
  exact pedalled_emit hbase (decide_eq_false hnumber)

theorem pedalled_run {a : Action} {base : Nat} (hc : Consistent c)
    (hbase : base ≤ c.track.nextHandle) (ha : ∀ number ∈ a.controller?, number ≠ Controller.sustain)
    (h : run a c = .ok u c') : c'.pedalled base = c.pedalled base := by
  have hbend : ∀ value, setBend value c = .ok u c' → c'.pedalled base = c.pedalled base := by
    intro value h
    rw [eq_of_setBend h]
    exact pedalled_emit hbase rfl
  cases a with
  | noteOff key velocity =>
    obtain ⟨-, rfl⟩ := eq_of_noteOff h
    exact pedalled_emit hbase rfl
  | play key delta duration offVelocity => exact pedalled_strike hc hbase h
  | setDynamic dynamic =>
    cases h
    rfl
  | turnKnob number value => exact pedalled_setController (ha number rfl) hbase h
  | pressPedal number => exact pedalled_setController (ha number rfl) hbase h
  | releasePedal number => exact pedalled_setController (ha number rfl) hbase h
  | bend value => exact hbend value h
  | resetBend => exact hbend _ h

variable (hc₀ : Consistent c₀)

include hc₀

theorem treads_run (a : Action) (due : List Action) :
    Ensures (Treads c₀ events (a :: due)) (run a) fun _ => Treads c₀ events due := by
  intro c u c' h hrun
  have hbecomes : Becomes c₀ c' := leaves_of_ok hrun ▸ changes_run a c h.becomes
  refine ⟨hbecomes, h.confined.run hrun, ?_⟩
  rw [← h.pedalled]
  exact pedalled_run (h.becomes.consistent hc₀) h.becomes.handle_le
    (h.confined.due a List.mem_cons_self) hrun

theorem clocked_treads : Clocked (Treads c₀ events) where
  pop hpop h := ⟨h.becomes.tail (.take hpop), h.confined.pop hpop, h.pedalled⟩
  run := treads_run hc₀
  rest idle hle h := ⟨h.becomes.tail (.wait idle hle), h.confined.congr rfl, h.pedalled⟩

theorem soundableOn_treads :
    SoundableOn (· ≠ Controller.sustain) (Keeps (Treads c₀ events [])) where
  toCompositional := compositional_keeps
  strike key delta duration offVelocity := by
    intro c u c' h hstrike
    have hconfined : Confined (· ≠ Controller.sustain) [.play key delta duration offVelocity] c :=
      ⟨List.forall_mem_singleton.2 nofun, h.confined.pending⟩
    exact treads_run hc₀ _ [] c u c' ⟨h.becomes, hconfined, h.pedalled⟩ hstrike
  later delta action ha := by
    intro c u c' h hlater
    have hbecomes : Becomes c₀ c' := leaves_of_ok hlater ▸ changes_later delta action c h.becomes
    refine ⟨hbecomes, Confined.soundableOn.later delta ha c u c' h.confined hlater, ?_⟩
    obtain ⟨tick, -, -, rfl⟩ := of_later hlater
    exact h.pedalled
  setController {number} value hnumber := by
    intro c u c' h hset
    have hbecomes : Becomes c₀ c' :=
      leaves_of_ok hset ▸ changes_setController number value c h.becomes
    refine ⟨hbecomes, ?_, ?_⟩
    · rw [eq_of_setController hset]
      exact h.confined.congr rfl
    · rw [← h.pedalled]
      exact pedalled_setController hnumber h.becomes.handle_le hset

end Treads

end ChannelM

/-! ## Where the strikes stand -/

/-- The strike was written under the handle at which its channel stood. -/
def Strike.StandsIn (s : Strike) (t : Track) : Prop :=
  ∃ velocity, t.get? s.before.track.nextHandle =
    some ⟨s.before.clock, .noteOn s.before.number s.key velocity⟩

/-- Since `c₀` the strikes were made, as slurred as `c₀`, and stand in the track. -/
structure Channel.Recounts (c₀ : Channel) (past : List Strike) (c : Channel) : Prop where
  becomes : Becomes c₀ c
  setup : c.setup = c₀.setup
  strikes : ∀ s ∈ past, s.before.slurred = c₀.slurred ∧
    c₀.track.nextHandle ≤ s.before.track.nextHandle ∧ s.StandsIn c.track

namespace Channel.Recounts

variable {c₀ c c' : Channel} {past : List Strike} {u : Unit}

theorem start (c : Channel) : Recounts c [] c :=
  ⟨.refl, rfl, nofun⟩

/-- Strikes stay where they stand. -/
theorem next (h : Recounts c₀ past c) (hc₀ : Consistent c₀) (hbecomes : Becomes c c')
    (hsetup : c'.setup = c.setup) : Recounts c₀ past c' := by
  refine ⟨h.becomes.trans hbecomes, hsetup.trans h.setup, fun s hs => ?_⟩
  obtain ⟨hslurred, hbase, velocity, he⟩ := h.strikes s hs
  exact ⟨hslurred, hbase, velocity, hbecomes.get? (h.becomes.consistent hc₀) he rfl⟩

theorem struck {key duration offVelocity : Nat} {delta : Int} (h : Recounts c₀ past c)
    (hc₀ : Consistent c₀) (hm : c₀.muted = false)
    (hstrike : ChannelM.strike key delta duration offVelocity c = .ok u c') :
    Recounts c₀ (past ++ [⟨c, key, delta⟩]) c' := by
  have hbecomes : Becomes c c' :=
    leaves_of_ok hstrike ▸ changes_strike key delta duration offVelocity c .refl
  have hsetup : c'.setup = c.setup :=
    (aloof_setup.fixes_strike key delta duration offVelocity).of_ok hstrike
  have hnext := h.next hc₀ hbecomes hsetup
  have hunmuted : c.muted = false := (congrArg Setup.muted h.setup).trans hm
  obtain ⟨velocity, c₁, tick, hcases, -, -, -, rfl⟩ := of_strike hstrike
  have hc₁ : c₁.muted = false ∧ c₁.clock = c.clock ∧ c₁.number = c.number ∧
      c₁.track.nextHandle = c.track.nextHandle := by
    rcases hcases with ⟨handle, -, rfl, -⟩ | ⟨-, rfl, -⟩
    · exact ⟨hunmuted, rfl, rfl, Track.nextHandle_erase ..⟩
    · exact ⟨hunmuted, rfl, rfl, rfl⟩
  refine ⟨hnext.becomes, hnext.setup, List.forall_mem_append.2
    ⟨hnext.strikes, List.forall_mem_singleton.2 ⟨congrArg Setup.slurred h.setup,
      h.becomes.handle_le, velocity, ?_⟩⟩⟩
  obtain ⟨hmuted, hclock, hnumber, hhandle⟩ := hc₁
  show (c₁.emit (.noteOn c₁.number key velocity)).track.get? c.track.nextHandle = _
  rw [emit_of_not_muted hmuted, write, Track.get?_push, if_pos hhandle.symm, hclock, hnumber]

theorem recital (hc₀ : Consistent c₀) (hm : c₀.muted = false) :
    Recital fun _ => Recounts c₀ where
  pop hpop h := h.next hc₀ (.single (.take hpop)) rfl
  run {a due past c c'} h hrun := by
    have hnext : Recounts c₀ past c' :=
      h.next hc₀ (leaves_of_ok hrun ▸ changes_run a c .refl) ((fixes_setup_run a).of_ok hrun)
    cases a with
    | play key delta duration offVelocity => exact h.struck hc₀ hm hrun
    | _ => exact (List.append_nil past).symm ▸ hnext
  rest idle hle h := h.next hc₀ (.single (.wait idle hle)) rfl
  strike key delta duration offVelocity _ := fun _ _ _ _ h hstrike => h.struck hc₀ hm hstrike
  later delta a past _ := fun c _ _ h hlater =>
    h.next hc₀ (leaves_of_ok hlater ▸ changes_later delta a c .refl)
      ((aloof_setup.fixes_later delta a).of_ok hlater)
  setController number value past := fun c _ _ h hset =>
    h.next hc₀ (leaves_of_ok hset ▸ changes_setController number value c .refl)
      ((fixes_setup_setController number value).of_ok hset)

end Channel.Recounts

/-- The strikes of a passage stand in its track, all as slurred as the passage. -/
theorem ChannelM.Succeeds.recounts {slurring : Bool} {v : Passage} (h : Succeeds slurring v)
    (hc : Consistent v.begun) (hm : v.begun.muted = false) :
    Recounts v.begun v.strikes v.after := by
  obtain ⟨t, hadvance⟩ := h.advance
  have hrecital := Recounts.recital hc hm
  have hsound := hrecital.playSound v.sound v.beat [] v.begun () v.struck (.start v.begun) h.sound
  exact hrecital.advanceBeat v.beat _ v.struck t v.after hsound hadvance

/-! ## Passages and their pedal -/

/-- In the passage the pedal is moved only if the slur changes, and then ahead of all its strikes
and behind every release that was due. -/
structure Passage.Bracketed (t : Track) (v : Passage) : Prop where
  kept : v.before.slurred = v.beat.slurred → v.begun = v.before
  moved : v.before.slurred ≠ v.beat.slurred →
    v.begun.track.nextHandle = v.before.track.nextHandle + 1 ∧
      t.get? v.before.track.nextHandle =
        some (v.before.pedalEvent v.before.clock v.beat.slurred)
  settled : v.before.slurred → ∀ q ∈ v.before.pending.toList, v.before.clock < q.1
  strikes : ∀ s ∈ v.strikes, s.before.slurred = v.beat.slurred ∧
    v.begun.track.nextHandle ≤ s.before.track.nextHandle ∧
      s.before.track.nextHandle < v.after.track.nextHandle ∧ s.StandsIn t

/-- What was written in a passage stays where it was written. -/
theorem Passage.Bracketed.becomes {v : Passage} {c' : Channel} (h : v.Bracketed v.after.track)
    (hc : Consistent v.after) (hbecomes : Becomes v.after c') : v.Bracketed c'.track where
  kept := h.kept
  moved hne := (h.moved hne).imp_right fun he => hbecomes.get? hc he rfl
  settled := h.settled
  strikes s hs := by
    obtain ⟨hslurred, hge, hlt, velocity, he⟩ := h.strikes s hs
    exact ⟨hslurred, hge, hlt, velocity, hbecomes.get? hc he rfl⟩

namespace Channel

variable {c₀ c : Channel} {events : List Event} {p : Phrase} {k : Nat} {v : Passage}

theorem Treads.movesPedal (h : Treads c₀ events [] c) (hm : c.muted = false) {down : Bool}
    (hbecomes : Becomes c (c.movesPedal down)) :
    Treads c₀ (events ++ [c.pedalEvent c.clock down]) [] (c.movesPedal down) := by
  refine ⟨h.becomes.trans hbecomes, h.confined.congr rfl, ?_⟩
  unfold Channel.pedalled
  rw [track_movesPedal hm, Track.writtenSince_push h.becomes.handle_le, List.filter_append,
    ← h.pedalled]
  rfl

/-- How `c` comes to element `k` of a phrase that `c₀` began to play. -/
structure Reaches (p : Phrase) (c₀ : Channel) (k : Nat) (c : Channel) : Prop
    extends Treads c₀ (p.pedallingBefore c₀ k) [] c where
  setup : c.setup = { c₀ with slurred := p.slurredBefore k }.setup
  clock : c.clock = p.startTick c₀ k
  settled : 0 < k → ∀ q ∈ c.pending.toList, c.clock < q.1

theorem Reaches.start (hs : c₀.slurred = false)
    (hp : ∀ q ∈ c₀.pending.toList, ∀ number ∈ q.2.controller?, number ≠ Controller.sustain) :
    Reaches p c₀ 0 c₀ where
  becomes := .refl
  confined := ⟨nofun, hp⟩
  pedalled := by
    unfold Channel.pedalled
    rw [Track.writtenSince_nextHandle]
    rfl
  setup := by
    unfold Channel.setup
    rw [hs]
    rfl
  clock := rfl
  settled := nofun

/-- The pedal is moved in a passage as its slur asks for. -/
theorem Reaches.begun (h : Reaches p c₀ k v.before) (hm : c₀.muted = false)
    (hv : Succeeds (p.slurredBefore k) v) (hk : p.slurredAt k = v.beat.slurred) :
    Treads c₀ (p.pedallingBefore c₀ (k + 1)) [] v.begun ∧
      v.begun.setup = { c₀ with slurred := v.beat.slurred }.setup ∧
      v.begun.clock = v.before.clock := by
  have hmuted : v.before.muted = false := (congrArg Setup.muted h.setup).trans hm
  rw [Phrase.pedallingBefore_succ, hk]
  rcases of_changeSlur hv.slur with ⟨heq, hbegun⟩ | ⟨hne, hbegun⟩
  · rw [if_neg (not_not.2 heq.symm), List.append_nil, hbegun, h.setup, heq]
    exact ⟨h.toTreads, rfl, rfl⟩
  · have hnumber : v.before.number = c₀.number := congrArg Setup.number h.setup
    have hmoved := h.toTreads.movesPedal hmuted (hbegun ▸ becomes_changeSlur hv.slur)
    have hevent : v.before.pedalEvent v.before.clock v.beat.slurred =
        c₀.pedalEvent (p.startTick c₀ k) v.beat.slurred := by
      unfold pedalEvent
      rw [hnumber, h.clock]
    rw [if_pos (Ne.symm hne), hbegun, ← hevent]
    refine ⟨hmoved, (setup_movesPedal ..).trans ?_, rfl⟩
    exact congrArg (fun x : Setup => { x with slurred := v.beat.slurred }) h.setup

/-- The passage of element `k` leads to the next element. -/
theorem Reaches.next (h : Reaches p c₀ k v.before) (hc₀ : Consistent c₀) (hm : c₀.muted = false)
    (hv : Succeeds (p.slurredBefore k) v) (hk : p.element? k = some (v.sound, v.beat)) :
    Reaches p c₀ (k + 1) v.after := by
  have hslurred := Phrase.slurredAt_of_element? hk
  obtain ⟨hbegun, hsetup, hclock⟩ := h.begun hm hv hslurred
  have hknobs : ∀ knob ∈ v.sound.articulation.knobs, knob.1 ≠ Controller.sustain := by
    cases v.sound.articulation <;> decide
  have hstruck :=
    (soundableOn_treads hc₀).keeps_playSound v.sound v.beat hknobs _ _ _ hbegun hv.sound
  obtain ⟨t, hadvance⟩ := hv.advance
  have hafter := (clocked_treads hc₀).advanceBeat _ _ _ _ hstruck hadvance
  obtain ⟨htick, hsettled⟩ := of_advanceBeat hadvance
  have htiming : v.struck.timing = c₀.timing :=
    congrArg Setup.timing (hv.setup_struck.trans hsetup)
  refine ⟨hafter, ?_, ?_, fun _ => hsettled⟩
  · rw [Phrase.slurredBefore, hslurred, ← hsetup]
    exact hv.setup_after
  · rw [htick, hv.clock_struck, hclock, h.clock, htiming, Phrase.startTick_succ hk]

/-- The passage of element `k` moves the pedal in its place. -/
theorem Reaches.bracketed (h : Reaches p c₀ k v.before) (hc₀ : Consistent c₀)
    (hm : c₀.muted = false) (hv : Succeeds (p.slurredBefore k) v)
    (hk : p.element? k = some (v.sound, v.beat)) : v.Bracketed v.after.track := by
  have hslurred := Phrase.slurredAt_of_element? hk
  obtain ⟨hbegun, hsetup, -⟩ := h.begun hm hv hslurred
  have hbefore : v.before.slurred = p.slurredBefore k := congrArg Setup.slurred h.setup
  have hmuted : v.before.muted = false := (congrArg Setup.muted h.setup).trans hm
  have hconsistent := hbegun.becomes.consistent hc₀
  have hrecounts := hv.recounts hconsistent ((congrArg Setup.muted hsetup).trans hm)
  refine ⟨fun heq => ?_, fun hne => ?_, fun hon => h.settled (Nat.pos_of_ne_zero ?_),
    fun s hs => ?_⟩
  · rcases of_changeSlur hv.slur with ⟨-, hkept⟩ | ⟨hne, -⟩
    · exact hkept
    · exact absurd (hbefore.symm.trans heq) hne
  · have hmoved := eq_movesPedal_of_changeSlur hv.slur (hbefore ▸ hne)
    have htrack : v.begun.track = v.before.track.push
        (v.before.pedalEvent v.before.clock v.beat.slurred) := by
      rw [hmoved]
      exact track_movesPedal hmuted _
    have hevent : v.begun.track.get? v.before.track.nextHandle =
        some (v.before.pedalEvent v.before.clock v.beat.slurred) := by
      rw [htrack, Track.get?_push, if_pos rfl]
    exact ⟨htrack ▸ Track.nextHandle_push .., hv.becomes_after.get? hconsistent hevent rfl⟩
  · rintro rfl
    rw [hbefore] at hon
    cases hon
  · obtain ⟨hflag, hge, velocity, he⟩ := hrecounts.strikes s hs
    exact ⟨hflag.trans (congrArg Setup.slurred hsetup), hge, Track.lt_of_get? he, velocity, he⟩

end Channel

/-- What playing a phrase does to the sustain pedal of a channel `c`, of which it makes `c'`. -/
structure Phrase.Pedalled (p : Phrase) (c c' : Channel) : Prop where
  /-- The pedal is down while a slur lasts. -/
  events : (c'.track.writtenSince c.track.nextHandle).filter (·.message.isSustain) = p.pedalling c
  elements : (p.passages c).map (fun v => (v.sound, v.beat)) = p.elements
  leads : p.LeadsTo c c'
  strikes : p.strikes c = (p.passages c).flatMap Passage.strikes
  /-- Every note-on that was written is that of a strike. -/
  notes : c'.track.NotesOf (p.strikes c) c.track.nextHandle
  /-- Each element is played on its tick and as slurred as it is, with the pedal in its place. -/
  passage : ∀ k v, (p.passages c)[k]? = some v →
    v.before.clock = p.startTick c k ∧ v.before.slurred = p.slurredBefore k ∧
      v.beat.slurred = p.slurredAt k ∧ v.Bracketed c'.track
  order : (p.passages c).Pairwise fun v w => v.after.track.nextHandle ≤ w.before.track.nextHandle
  /-- The last move of the pedal is written behind everything else. -/
  last : ∃ handle, c'.track.get? handle = some (c.pedalEvent (p.startTick c p.size) false) ∧
    c'.track.nextHandle = handle + 1 ∧ ∀ v ∈ p.passages c, v.after.track.nextHandle ≤ handle
  clock : c'.clock = p.startTick c p.size
  settled : ∀ q ∈ c'.pending.toList, c'.clock < q.1
  slurred : c'.slurred = false
  lifted : c'.controllerValue Controller.sustain = 0

namespace ChannelM

variable {slurring : Bool} {l : List (Sound × Beat)} {c c' : Channel} {u : Unit}

/-- Passages are written one behind the other. -/
theorem pairwise_passagesOf (h : playElements slurring l c = .ok u c') :
    (passagesOf slurring l c).Pairwise fun v w =>
      v.after.track.nextHandle ≤ w.before.track.nextHandle := by
  induction l generalizing slurring c with
  | nil => exact .nil
  | cons element rest ih =>
    obtain ⟨-, hrest⟩ := playElements_cons h
    refine List.pairwise_cons.2 ⟨fun w hw => ?_, ih hrest⟩
    obtain ⟨⟨l₁, hbefore⟩, -⟩ := exists_of_mem_passagesOf hw hrest
    exact (becomes_playElements hbefore).handle_le

/-- On a channel that sounds, does not slur and has promised nothing to the sustain pedal, a phrase
puts the pedal down for each of its slurs and lifts it behind the slur, and lifts it at the end. -/
theorem pedalled_of_playPhrase (c : Channel) (p : Phrase) (hc : c.Reachable)
    (hm : c.muted = false) (hs : c.slurred = false)
    (hp : ∀ q ∈ c.pending.toList, ∀ number ∈ q.2.controller?, number ≠ Controller.sustain)
    (hsize : p.size ≠ 0) {t : Nat} {c' : Channel} (h : playPhrase p c = .ok t c') :
    p.Pedalled c c' := by
  have hconsistent := consistent_of_reachable hc
  have hleads := leadsTo_of_playPhrase h
  have hnotes := chronicle_notesOf.playPhrase p [] c t c' (.start c.track) h
  obtain ⟨c₁, hplay, hlift⟩ := of_playPhrase hsize h
  obtain ⟨hall, hend⟩ := of_passages
    (P := Reaches p c)
    (Q := fun k v => v.before.clock = p.startTick c k ∧ v.before.slurred = p.slurredBefore k ∧
      v.beat.slurred = p.slurredAt k ∧ v.Bracketed v.after.track ∧ Becomes c v.after)
    (fun k v _ hk hv hreach =>
      have hnext := hreach.next hconsistent hm hv hk
      ⟨⟨hreach.clock, congrArg Setup.slurred hreach.setup,
        (Phrase.slurredAt_of_element? hk).symm, hreach.bracketed hconsistent hm hv hk,
        hnext.becomes⟩, hnext⟩)
    (Reaches.start hs hp) hplay
  have hmuted : c₁.muted = false := (congrArg Setup.muted hend.setup).trans hm
  have hnumber : c₁.number = c.number := congrArg Setup.number hend.setup
  have hlast : c₁.pedalEvent c₁.clock false = c.pedalEvent (p.startTick c p.size) false := by
    unfold pedalEvent
    rw [hnumber, hend.clock]
  have hbehind : ∀ v ∈ p.passages c, Becomes v.after c₁ := fun v hv => by
    obtain ⟨-, -, l₂, hafter⟩ := exists_of_mem_passagesOf hv hplay
    exact becomes_playElements hafter
  have hmoves := becomes_changeSlur hlift
  obtain rfl : c' = c₁.movesPedal false := eq_movesPedal_of_changeSlur hlift Bool.noConfusion
  have htrack := track_movesPedal hmuted false
  refine ⟨?_, map_passagesOf .., hleads, strikesOfElements_eq hplay, hnotes, fun k v hk => ?_,
    pairwise_passagesOf hplay, ⟨c₁.track.nextHandle, ?_, ?_, fun v hv => (hbehind v hv).handle_le⟩,
    hend.clock, hend.settled (Nat.pos_of_ne_zero hsize), rfl, controllerValue_movesPedal⟩
  · rw [p.pedalling_eq, ← hlast]
    exact (hend.toTreads.movesPedal hmuted hmoves).pedalled
  · obtain ⟨hclock, hbefore, hslurred, hbracketed, hafter⟩ := hall k v hk
    have hbecomes := (hbehind v (List.mem_of_getElem? hk)).trans hmoves
    exact ⟨hclock, hbefore, hslurred,
      hbracketed.becomes (hafter.consistent hconsistent) hbecomes⟩
  · rw [htrack, Track.get?_push, if_pos rfl, hlast]
  · rw [htrack, Track.nextHandle_push]

/-- A strike and a knob that fall due while a phrase is played. -/
def expectant : Channel :=
  ({ track := { channel := 0 } } : Channel).performAll
    [.later 100 (.play 60 0 300 96), .later 500 (.turnKnob 72 20)]

/-- A slur over a strummed chord, one over an element of no length, and one up to the end. -/
def arched : Phrase where
  melody := ⟨[⟨.pitch .c, .plain⟩, ⟨.chord ⟨[.c, .rest, .g]⟩, .gliscando⟩, ⟨.pitch .e, .plain⟩]⟩
  rhythm := ⟨[Beat.quarter.withSlur true, Beat.quarter.withSlur true, .eighth,
    Beat.zero.withSlur true, .quarter, Beat.half.withSlur true]⟩

theorem pedalled_of_playPhrase_arched :
    expectant.Reachable ∧ expectant.muted = false ∧ expectant.slurred = false ∧
      (∀ q ∈ expectant.pending.toList, ∀ number ∈ q.2.controller?, number ≠ Controller.sustain) ∧
      arched.size ≠ 0 ∧ arched.slurs = [(0, 1), (3, 3), (5, 5)] ∧
      (arched.pedalling expectant).map (fun e => (e.tick, e.message)) =
        [(0, .controlChange 0 64 127), (1920, .controlChange 0 64 0),
          (2400, .controlChange 0 64 127), (2400, .controlChange 0 64 0),
          (3360, .controlChange 0 64 127), (5280, .controlChange 0 64 0)] ∧
      ∃ t c', playPhrase arched expectant = .ok t c' ∧ arched.Pedalled expectant c' := by
  have hc : expectant.Reachable := ⟨{ channel := 0 }, false, .standard, _, _, rfl, rfl⟩
  have hm : expectant.muted = false := by decide +kernel
  have hs : expectant.slurred = false := by decide +kernel
  have hp : ∀ q ∈ expectant.pending.toList, ∀ number ∈ q.2.controller?,
      number ≠ Controller.sustain := by decide +kernel
  have hsize : arched.size ≠ 0 := by decide +kernel
  obtain ⟨t, h⟩ := eq_ok_of_succeeds (m := playPhrase arched) (c := expectant) (by decide +kernel)
  exact ⟨hc, hm, hs, hp, hsize, by decide +kernel, by decide +kernel, t, _, h,
    pedalled_of_playPhrase expectant arched hc hm hs hp hsize h⟩

end ChannelM

end MidiScore
