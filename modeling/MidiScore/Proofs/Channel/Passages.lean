import MidiScore.Proofs.Channel.Confined
import MidiScore.Proofs.Channel.Slurs
import MidiScore.Proofs.Channel.Strikes

/-!
# A phrase, passage by passage

A phrase is played in passages, one for each of its elements: the slur and the pedal are put where
the element wants them, its sound is played, and its beat passes (`Phrase.passages`). Each passage
begins with the channel that the one before it has left, and the last leads to where the phrase ends
(`leads_of_playElements`). So what is true before element `k` and leads from one passage to the next
is true of the whole phrase (`of_passages`).
-/

namespace MidiScore

/-- How an element is played: the channel that comes to it, the channel whose slur is where the
element wants it, the channel whose sound was played, and the channel when the beat has passed. -/
structure Passage where
  sound : Sound
  beat : Beat
  before : Channel
  begun : Channel
  struck : Channel
  after : Channel

/-- The strikes of a passage: those that its sound asks for at once, and those promised before that
fall due in its beat. -/
def Passage.strikes (v : Passage) : List Strike :=
  v.sound.strikes v.beat v.begun ++
    v.struck.strikesUntil (v.struck.clock + v.struck.timing.ticksInBeat v.beat)

/-- What a channel has been set to that no sound changes. -/
structure Setup where
  number : Nat
  percussion : Bool
  timing : Timing
  octave : Int
  transposition : Int
  muted : Bool
  slurred : Bool

def Channel.setup (c : Channel) : Setup :=
  ⟨c.number, c.percussion, c.timing, c.octave, c.transposition, c.muted, c.slurred⟩

namespace ChannelM

open Channel

/-- The passage in which an element is played, `slurring` or not before. -/
def passageOf (slurring : Bool) (element : Sound × Beat) (c : Channel) : Passage :=
  let begun := (changeSlur slurring element.2.slurred).leaves c
  let struck := (playSound element.1 element.2).leaves begun
  ⟨element.1, element.2, c, begun, struck, (advanceBeat element.2).leaves struck⟩

/-- The passages in which elements are played one after the other, `slurring` or not before the
first. -/
def passagesOf (slurring : Bool) : List (Sound × Beat) → Channel → List Passage
  | [], _ => []
  | element :: rest, c =>
    let v := passageOf slurring element c
    v :: passagesOf v.beat.slurred rest v.after

end ChannelM

/-- The passages of a phrase. -/
def Phrase.passages (p : Phrase) : Channel → List Passage :=
  ChannelM.passagesOf false p.elements

namespace ChannelM

open Channel

/-- Nothing failed in the passage, which began `slurring` or not. -/
structure Succeeds (slurring : Bool) (v : Passage) : Prop where
  slur : changeSlur slurring v.beat.slurred v.before = .ok () v.begun
  sound : playSound v.sound v.beat v.begun = .ok () v.struck
  advance : ∃ t, advanceBeat v.beat v.struck = .ok t v.after

/-- The passages lead to `c'`: nothing failed in them, the first begins `slurring` or not, and each
begins with the channel that the one before it has left. -/
inductive Leads (c' : Channel) : Bool → Channel → List Passage → Prop where
  | nil {slurring : Bool} : Leads c' slurring c' []
  | cons {slurring : Bool} {v : Passage} {rest : List Passage} (succeeds : Succeeds slurring v)
    (leads : Leads c' v.beat.slurred v.after rest) : Leads c' slurring v.before (v :: rest)

section Elements

variable {slurring : Bool} {element : Sound × Beat} {rest l : List (Sound × Beat)}
  {c c' : Channel} {u : Unit}

theorem passagesOf_cons :
    passagesOf slurring (element :: rest) c = passageOf slurring element c ::
      passagesOf element.2.slurred rest (passageOf slurring element c).after :=
  rfl

/-- The elements of the passages are the elements that are played. -/
theorem map_passagesOf (slurring : Bool) (l : List (Sound × Beat)) (c : Channel) :
    (passagesOf slurring l c).map (fun v => (v.sound, v.beat)) = l := by
  induction l generalizing slurring c with
  | nil => rfl
  | cons element rest ih => exact congrArg (element :: ·) (ih _ _)

/-- What is played is played passage by passage. -/
theorem playElements_cons (h : playElements slurring (element :: rest) c = .ok u c') :
    Succeeds slurring (passageOf slurring element c) ∧
      playElements element.2.slurred rest (passageOf slurring element c).after = .ok u c' := by
  obtain ⟨_, begun, hslur, h⟩ := bind_eq_ok h
  obtain ⟨_, struck, hsound, h⟩ := bind_eq_ok h
  obtain ⟨t, after, hadvance, h⟩ := bind_eq_ok h
  have hv : passageOf slurring element c =
      ⟨element.1, element.2, c, begun, struck, after⟩ := by
    simp only [passageOf, leaves_of_ok hslur, leaves_of_ok hsound, leaves_of_ok hadvance]
  rw [hv]
  exact ⟨⟨hslur, hsound, t, hadvance⟩, h⟩

theorem Succeeds.playElements_cons (h : Succeeds slurring (passageOf slurring element c)) :
    playElements slurring (element :: l) c =
      playElements element.2.slurred l (passageOf slurring element c).after := by
  obtain ⟨t, hadvance⟩ := h.advance
  exact (bind_of_ok h.slur).trans ((bind_of_ok h.sound).trans (bind_of_ok hadvance))

/-- Elements that are played one after the other are played in their passages. -/
theorem leads_of_playElements (h : playElements slurring l c = .ok u c') :
    Leads c' slurring c (passagesOf slurring l c) := by
  induction l generalizing slurring c with
  | nil =>
    cases h
    exact .nil
  | cons element rest ih =>
    obtain ⟨hsucceeds, hrest⟩ := playElements_cons h
    exact .cons hsucceeds (ih hrest)

/-- What is played before a passage leads to it, and what is played behind it leads to the end. -/
theorem exists_of_mem_passagesOf {v : Passage} (hv : v ∈ passagesOf slurring l c)
    (h : playElements slurring l c = .ok u c') :
    (∃ l₁, playElements slurring l₁ c = .ok () v.before) ∧ (∃ b, Succeeds b v) ∧
      ∃ l₂, playElements v.beat.slurred l₂ v.after = .ok u c' := by
  induction l generalizing slurring c with
  | nil => cases hv
  | cons element rest ih =>
    obtain ⟨hsucceeds, hrest⟩ := ChannelM.playElements_cons h
    rcases List.mem_cons.1 hv with rfl | hv
    · exact ⟨⟨[], rfl⟩, ⟨slurring, hsucceeds⟩, rest, hrest⟩
    · obtain ⟨⟨l₁, hbefore⟩, hafter⟩ := ih hv hrest
      exact ⟨⟨element :: l₁, hsucceeds.playElements_cons.trans hbefore⟩, hafter⟩

theorem strikesOfElements_cons {begun struck after : Channel} {t : Nat}
    (hslur : changeSlur slurring element.2.slurred c = .ok () begun)
    (hsound : playSound element.1 element.2 begun = .ok () struck)
    (hadvance : advanceBeat element.2 struck = .ok t after) :
    strikesOfElements slurring (element :: rest) c =
      element.1.strikes element.2 begun ++
        struck.strikesUntil (struck.clock + struck.timing.ticksInBeat element.2) ++
        strikesOfElements element.2.slurred rest after := by
  rw [strikesOfElements, following_of_ok hslur, following_of_ok hsound, following_of_ok hadvance,
    List.append_assoc]

/-- The strikes of elements are those of their passages. -/
theorem strikesOfElements_eq (h : playElements slurring l c = .ok u c') :
    strikesOfElements slurring l c = (passagesOf slurring l c).flatMap Passage.strikes := by
  induction l generalizing slurring c with
  | nil => rfl
  | cons element rest ih =>
    obtain ⟨⟨hslur, hsound, t, hadvance⟩, hrest⟩ := playElements_cons h
    rw [passagesOf_cons, List.flatMap_cons, ← ih hrest]
    exact strikesOfElements_cons hslur hsound hadvance

end Elements

/-! ## Passages by number -/

end ChannelM

/-- Each place of a phrase has an element, since neither its melody nor its rhythm is empty. -/
theorem Phrase.exists_element? {p : Phrase} {i : Nat} (hi : i < p.size) :
    ∃ element, p.element? i = some element := by
  have hsize : p.melody.size ≠ 0 ∧ p.rhythm.size ≠ 0 := by
    unfold size at hi
    split at hi
    · cases hi
    · next h => exact not_or.1 h
  have hsound : i % p.melody.size < p.melody.sounds.length :=
    Nat.mod_lt _ (Nat.pos_of_ne_zero hsize.1)
  have hbeat : i % p.rhythm.size < p.rhythm.beats.length :=
    Nat.mod_lt _ (Nat.pos_of_ne_zero hsize.2)
  unfold element?
  rw [List.getElem?_eq_getElem hsound, List.getElem?_eq_getElem hbeat]
  exact ⟨_, rfl⟩

theorem Phrase.mem_elements {p : Phrase} {i : Nat} {element : Sound × Beat} (hi : i < p.size)
    (h : p.element? i = some element) : element ∈ p.elements := by
  rw [p.elements_eq]
  exact List.mem_filterMap.2 ⟨i, List.mem_range.2 hi, h⟩

theorem Phrase.slurredAt_of_element? {p : Phrase} {i : Nat} {element : Sound × Beat}
    (h : p.element? i = some element) : p.slurredAt i = element.2.slurred := by
  unfold slurredAt
  rw [h]
  rfl

namespace ChannelM

open Channel

section Numbered

variable {p : Phrase} {c c' : Channel} {u : Unit}

theorem of_passages_from {P : Nat → Channel → Prop} {Q : Nat → Passage → Prop}
    (step : ∀ k v, k < p.size → p.element? k = some (v.sound, v.beat) →
      Succeeds (p.slurredBefore k) v → P k v.before → Q k v ∧ P (k + 1) v.after)
    {n k : Nat} (hn : k + n = p.size) (hc : P k c)
    (h : playElements (p.slurredBefore k) ((List.range' k n).filterMap p.element?) c = .ok u c') :
    (∀ i v, (passagesOf (p.slurredBefore k) ((List.range' k n).filterMap p.element?) c)[i]? =
      some v → Q (k + i) v) ∧ P p.size c' := by
  induction n generalizing k c with
  | zero =>
    cases h
    refine ⟨fun i v hi => ?_, hn ▸ hc⟩
    rw [List.range'_zero, List.filterMap_nil, passagesOf, List.getElem?_nil] at hi
    cases hi
  | succ n ih =>
    obtain ⟨element, helement⟩ := Phrase.exists_element? (p := p) (i := k) (by omega)
    have hslurred : p.slurredBefore (k + 1) = element.2.slurred :=
      Phrase.slurredAt_of_element? helement
    rw [List.range'_succ, List.filterMap_cons_some helement] at h ⊢
    obtain ⟨hv, hrest⟩ := playElements_cons h
    obtain ⟨hQ, hP⟩ := step k (passageOf (p.slurredBefore k) element c) (by omega) helement hv hc
    rw [← hslurred] at hrest
    obtain ⟨hall, hend⟩ := ih (by omega) hP hrest
    refine ⟨fun i v hi => ?_, hend⟩
    rw [passagesOf_cons, ← hslurred] at hi
    cases i with
    | zero =>
      cases hi
      exact hQ
    | succ i => exact Nat.succ_add_eq_add_succ k i ▸ hall i v hi

/-- What is true before element `k` of a phrase and leads, over the passage of the element, to what
is true before the next one, is true before each element and when the phrase has been played. -/
theorem of_passages {P : Nat → Channel → Prop} {Q : Nat → Passage → Prop}
    (step : ∀ k v, k < p.size → p.element? k = some (v.sound, v.beat) →
      Succeeds (p.slurredBefore k) v → P k v.before → Q k v ∧ P (k + 1) v.after)
    (hc : P 0 c) (h : playElements false p.elements c = .ok u c') :
    (∀ k v, (p.passages c)[k]? = some v → Q k v) ∧ P p.size c' := by
  unfold Phrase.passages
  rw [p.elements_eq, List.range_eq_range'] at h ⊢
  obtain ⟨hall, hend⟩ := of_passages_from step (Nat.zero_add p.size) hc h
  exact ⟨fun k v hk => Nat.zero_add k ▸ hall k v hk, hend⟩

end Numbered

end ChannelM

/-! ## The pedal and the slur -/

/-- What a channel writes when it moves the sustain pedal. -/
def Channel.pedalEvent (c : Channel) (tick : Nat) (down : Bool) : Event :=
  ⟨tick, .controlChange c.number Controller.sustain (if down then 127 else 0)⟩

namespace Channel

variable {c : Channel}

/-- The channel whose pedal and slur were moved. -/
def movesPedal (c : Channel) (down : Bool) : Channel :=
  { c with
    track := (c.emit (c.pedalEvent c.clock down).message).track
    controllers := c.controllers.setIfInBounds Controller.sustain
      ((c.controller Controller.sustain).set (if down then 127 else 0))
    slurred := down }

theorem track_movesPedal (hm : c.muted = false) (down : Bool) :
    (c.movesPedal down).track = c.track.push (c.pedalEvent c.clock down) := by
  unfold movesPedal
  rw [emit_of_not_muted hm]
  rfl

theorem setup_movesPedal (c : Channel) (down : Bool) :
    (c.movesPedal down).setup = { c with slurred := down }.setup := by
  have hnumber : (c.movesPedal down).number = c.number := channel_emit ..
  unfold setup
  rw [hnumber]
  rfl

/-- A pedal that is up stands at zero. -/
theorem controllerValue_movesPedal :
    (c.movesPedal false).controllerValue Controller.sustain = 0 := by
  have hset : (c.movesPedal false).controller Controller.sustain =
      (c.controller Controller.sustain).set 0 :=
    controller_setController.trans (if_pos ⟨rfl, by decide⟩)
  unfold controllerValue
  rw [hset]
  cases c.controller Controller.sustain <;> rfl

end Channel

namespace ChannelM

open Channel

section Slur

variable {slurring slurred : Bool} {c c' : Channel} {u : Unit} {p : Phrase}

theorem eq_of_releasePedal
    (h : releasePedal Controller.sustain { c with slurred := false } = .ok u c') :
    c' = c.movesPedal false := by
  have hemit : ({ c with slurred := false }.emit (c.pedalEvent c.clock false).message).track =
      (c.emit (c.pedalEvent c.clock false).message).track := by
    unfold emit
    split <;> rfl
  unfold movesPedal
  rw [← hemit]
  exact eq_of_setController h

theorem of_changeSlur (h : changeSlur slurring slurred c = .ok u c') :
    (slurring = slurred ∧ c' = c) ∨ (slurring ≠ slurred ∧ c' = c.movesPedal slurred) := by
  cases slurring <;> cases slurred
  · cases h
    exact .inl ⟨rfl, rfl⟩
  · obtain ⟨_, c₁, hpress, hslur⟩ := bind_eq_ok h
    cases hslur
    rw [eq_of_setController hpress]
    exact .inr ⟨Bool.noConfusion, rfl⟩
  · obtain ⟨_, c₁, hslur, hlift⟩ := bind_eq_ok h
    cases hslur
    exact .inr ⟨Bool.noConfusion, eq_of_releasePedal hlift⟩
  · cases h
    exact .inl ⟨rfl, rfl⟩

theorem eq_movesPedal_of_changeSlur (h : changeSlur slurring slurred c = .ok u c')
    (hne : slurring ≠ slurred) : c' = c.movesPedal slurred := by
  rcases of_changeSlur h with ⟨heq, -⟩ | ⟨-, hmoved⟩
  · exact absurd heq hne
  · exact hmoved

/-- A phrase is its elements and the end of a slur. -/
theorem of_playPhrase {t : Nat} (hsize : p.size ≠ 0) (h : playPhrase p c = .ok t c') :
    ∃ c₁, playElements false p.elements c = .ok () c₁ ∧ changeSlur true false c₁ = .ok () c' := by
  unfold playPhrase at h
  rw [if_neg hsize, get_bind] at h
  obtain ⟨_, c₁, hplay, h⟩ := bind_eq_ok h
  obtain ⟨_, c₂, hslur, h⟩ := bind_eq_ok h
  cases hslur
  obtain ⟨_, c₃, hlift, h⟩ := bind_eq_ok h
  cases h
  exact ⟨c₁, hplay, hlift⟩

end Slur

end ChannelM

/-- The passages are how `c` plays the phrase: they lead from one to the next, and the last one to
where the pedal is lifted at the end. -/
def Phrase.LeadsTo (p : Phrase) (c c' : Channel) : Prop :=
  ∃ last, ChannelM.Leads last false c (p.passages c) ∧
    c' = if p.size = 0 then last else last.movesPedal false

namespace ChannelM

open Channel

theorem leadsTo_of_playPhrase {p : Phrase} {c c' : Channel} {t : Nat}
    (h : playPhrase p c = .ok t c') : p.LeadsTo c c' := by
  by_cases hsize : p.size = 0
  · unfold playPhrase at h
    rw [if_pos hsize] at h
    cases h
    refine ⟨c, ?_, (if_pos hsize).symm⟩
    unfold Phrase.passages
    rw [Phrase.elements_of_size hsize]
    exact .nil
  · obtain ⟨last, hplay, hlift⟩ := of_playPhrase hsize h
    refine ⟨last, leads_of_playElements hplay, ?_⟩
    rw [if_neg hsize]
    exact eq_movesPedal_of_changeSlur hlift Bool.noConfusion

/-! ## What a passage leaves as it is -/

theorem aloof_setup : Aloof setup where
  write _ _ := rfl
  erase _ _ := rfl
  notes _ _ := rfl
  releases _ _ := rfl
  pending _ _ := rfl

theorem fixes_setup_setController (number value : Nat) : Fixes setup (setController number value) :=
  fixes_get.bind fun _ => (aloof_setup.fixes_send _).bind fun _ => fixes_modify fun _ => rfl

theorem fixes_setup_run (a : Action) : Fixes setup (run a) :=
  aloof_setup.fixes_run (fun _ _ => rfl) (fun _ _ => rfl) fun _ _ => fixes_setup_setController _

theorem clocked_setup (x : Setup) : Clocked fun _ c => c.setup = x where
  pop _ h := h
  run a _ := (fixes_setup_run a).keeps x
  rest _ _ h := h

namespace Succeeds

variable {slurring : Bool} {v : Passage}

theorem setup_struck (h : Succeeds slurring v) : v.struck.setup = v.begun.setup :=
  (soundableOn_of_aloof (N := fun _ => True) aloof_setup (fun _ => fixes_setup_setController _)
    _).keeps_playSound v.sound v.beat (fun _ _ => trivial) _ _ _ rfl h.sound

theorem setup_after (h : Succeeds slurring v) : v.after.setup = v.begun.setup := by
  obtain ⟨t, hadvance⟩ := h.advance
  exact ((clocked_setup v.struck.setup).advanceBeat _ _ _ _ rfl hadvance).trans h.setup_struck

theorem clock_struck (h : Succeeds slurring v) : v.struck.clock = v.begun.clock :=
  (soundableOn_of_aloof (N := fun _ => True) aloof_clock (fun _ => fixes_clock_setController _)
    _).keeps_playSound v.sound v.beat (fun _ _ => trivial) _ _ _ rfl h.sound

end Succeeds

end ChannelM

end MidiScore
