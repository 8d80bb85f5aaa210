import MidiScore.Proofs.Channel.Clocked
import MidiScore.Proofs.Channel.Keys

/-!
# The strikes of a run

A channel strikes keys when a sound asks for it and when a strike that was promised falls due.
`Phrase.strikes p c` lists all strikes that playing `p` on `c` makes, each with the channel that was
about to make it. An invariant of the strikes so far and the channel is true of what is struck and
promised for a sound (`Rehearsal`), of a sound that was played and the advance behind it
(`Recital`), and of a phrase if slurring does not disturb it (`Chronicle`).
-/

namespace MidiScore

/-- A strike: the channel that is about to make it, its key and how much louder than the dynamic it
is. -/
structure Strike where
  before : Channel
  key : Nat
  delta : Int

/-- The strike that an action makes at once. -/
def Action.strikes : Action → Channel → List Strike
  | play key delta _ _, c => [⟨c, key, delta⟩]
  | _, _ => []

namespace ChannelM

section Combined

variable {α : Type}

/-- The strikes of what follows `m`. Nothing follows an operation that fails. -/
def following (m : ChannelM α) (s : α → Channel → List Strike) (c : Channel) : List Strike :=
  match m c with
  | .ok a c' => s a c'
  | .error .. => []

/-- The strikes of doing `f` to one item after the other. -/
def strikesOfAll (f : α → ChannelM PUnit) (s : α → Channel → List Strike) :
    List α → Channel → List Strike
  | [], _ => []
  | a :: rest, c => s a c ++ following (f a) (fun _ => strikesOfAll f s rest) c

end Combined

/-- The strikes of running actions. -/
def strikesOfRunning : List Action → Channel → List Strike :=
  strikesOfAll run Action.strikes

end ChannelM

open ChannelM

/-- The promised strikes that fall due by `target`. -/
def Channel.strikesUntil (target : Nat) (c : Channel) : List Strike :=
  match _ : c.pending.popDue? target with
  | none => []
  | some (tick, actions, rest) =>
    let c₁ := { c with pending := rest, clock := max c.clock tick }
    strikesOfRunning actions c₁ ++
      match _ : runAll actions c₁ with
      | .ok _ c' => strikesUntil target c'
      | .error .. => []
termination_by c.workload
decreasing_by
  exact workload_runAll_lt (by assumption) (leaves_of_ok (by assumption))

theorem Channel.strikesUntil_of_not_due {target : Nat} {c : Channel}
    (h : c.pending.popDue? target = none) : c.strikesUntil target = [] := by
  unfold strikesUntil
  split
  · rfl
  · next heq =>
    rw [h] at heq
    cases heq

theorem Channel.strikesUntil_of_due {target tick : Nat} {c c' : Channel} {actions : List Action}
    {rest : Agenda Action} {u : Unit} (h : c.pending.popDue? target = some (tick, actions, rest))
    (hrun : runAll actions { c with pending := rest, clock := max c.clock tick } = .ok u c') :
    c.strikesUntil target =
      strikesOfRunning actions { c with pending := rest, clock := max c.clock tick } ++
        c'.strikesUntil target := by
  rw [strikesUntil]
  split
  · next heq =>
    rw [h] at heq
    cases heq
  · next heq =>
    rw [h] at heq
    cases heq
    dsimp only
    congr 1
    split
    · next heq =>
      rw [hrun] at heq
      cases heq
      rfl
    · next heq =>
      rw [hrun] at heq
      cases heq

/-- The strike that a pitch asks for. -/
def Pitch.strikes (p : Pitch) (delta : Int) (c : Channel) : List Strike :=
  match c.soundingKey p with
  | some k => [⟨c, k, delta⟩]
  | none => []

namespace ChannelM

/-- What a roll of `size` tones does with tone `i`. -/
def rollTone (size duration offVelocity : Nat) : Pitch × Nat → ChannelM Unit
  | (p, i) => do
    let product ← ofOption (Bounded.nat? 64 (duration * i))
    let delay := product / (size * 4)
    let hold := duration - delay
    if delay = 0 then
      playNote p 0 hold offVelocity
    else
      match (← get).soundingKey p with
      | some key => after delay (.play key 0 hold offVelocity)
      | none => return ()

theorem roll_eq (c : Chord) (duration offVelocity : Nat) :
    roll c duration offVelocity = c.tones.zipIdx.forM (rollTone c.size duration offVelocity) :=
  rfl

/-- A tone of a roll is struck at once if it does not enter late. -/
def strikesOfRollTone (size duration : Nat) : Pitch × Nat → Channel → List Strike
  | (p, i), c => if duration * i / (size * 4) = 0 then p.strikes 0 c else []

end ChannelM

/-- The strikes that a pitch or chord asks for at once. -/
def Playable.strikes (p : Playable) (a : Articulation) (duration : Nat) : Channel → List Strike :=
  match p, a with
  | .pitch p, .gliscando => p.strikes 0
  | .chord c, .gliscando =>
    strikesOfAll (rollTone c.size duration a.offVelocity) (strikesOfRollTone c.size duration)
      c.tones.zipIdx
  | .pitch p, _ => p.strikes a.attackDelta
  | .chord c, _ =>
    strikesOfAll (fun p => playNote p a.attackDelta duration a.offVelocity)
      (fun p => p.strikes a.attackDelta) c.tones

/-- The strikes that a sound of a written length asks for at once. -/
def Sound.strikes (s : Sound) (b : Beat) (c : Channel) : List Strike :=
  if s.playable.isRest then []
  else
    let duration := s.articulation.soundingTicks (c.timing.ticksInBeat b)
    following (turnKnobs s.articulation.knobs)
      (fun _ => s.playable.strikes s.articulation duration) c

namespace ChannelM

/-- The strikes of elements that are played one after the other. -/
def strikesOfElements (slurring : Bool) : List (Sound × Beat) → Channel → List Strike
  | [], _ => []
  | (sound, beat) :: rest, c =>
    following (changeSlur slurring beat.slurred) (fun _ c =>
      sound.strikes beat c ++ following (playSound sound beat) (fun _ c =>
        c.strikesUntil (c.clock + c.timing.ticksInBeat beat) ++
          following (advanceBeat beat) (fun _ => strikesOfElements beat.slurred rest) c) c) c

end ChannelM

theorem Phrase.elements_of_size {p : Phrase} (hsize : p.size = 0) : p.elements = [] := by
  unfold elements
  rw [hsize]
  rfl

/-- The strikes of a phrase that is played. -/
def Phrase.strikes (p : Phrase) : Channel → List Strike :=
  strikesOfElements false p.elements

/-- The action is no strike that is softer than the dynamic. -/
def Action.Loud : Action → Prop
  | play _ delta _ _ => 0 ≤ delta
  | _ => True

theorem Action.loud_play {delta : Int} (key duration offVelocity : Nat) (h : 0 ≤ delta) :
    (play key delta duration offVelocity).Loud := h

namespace ChannelM

variable {α β : Type}

/-! ## Invariants of the strikes so far -/

/-- If `m` succeeds, what is true of the strikes before it and the channel is true with the strikes
`s` of `m`. -/
def Tells (H : List Strike → Channel → Prop) (m : ChannelM α) (s : Channel → List Strike) : Prop :=
  ∀ past c a c', H past c → m c = .ok a c' → H (past ++ s c) c'

section Rules

variable {H : List Strike → Channel → Prop} {m : ChannelM α} {s : Channel → List Strike}

theorem tells_of_keeps (h : ∀ past, Keeps (H past) m) : Tells H m fun _ => [] := by
  intro past c a c' hc hm
  rw [List.append_nil]
  exact h past c a c' hc hm

theorem following_of_ok {s : α → Channel → List Strike} {c c' : Channel} {a : α}
    (h : m c = .ok a c') : following m s c = s a c' := by
  unfold following
  rw [h]

theorem Tells.bind {f : α → ChannelM β} {s' : α → Channel → List Strike} (hm : Tells H m s)
    (hf : ∀ a, Tells H (f a) (s' a)) : Tells H (m >>= f) fun c => s c ++ following m s' c := by
  intro past c b c' hc h
  obtain ⟨a, c₁, h₁, h₂⟩ := bind_eq_ok h
  show H (past ++ (s c ++ following m s' c)) c'
  rw [following_of_ok h₁, ← List.append_assoc]
  exact hf a _ c₁ b c' (hm past c a c₁ hc h₁) h₂

/-- What comes first may make no strike. -/
theorem Tells.after_keeps {f : α → ChannelM β} {s' : α → Channel → List Strike}
    (hm : ∀ past, Keeps (H past) m) (hf : ∀ a, Tells H (f a) (s' a)) :
    Tells H (m >>= f) (following m s') :=
  (tells_of_keeps hm).bind hf

/-- What comes last may make no strike. -/
theorem Tells.then_keeps {f : α → ChannelM β} (hm : Tells H m s)
    (hf : ∀ a past, Keeps (H past) (f a)) : Tells H (m >>= f) s := by
  intro past c b c' hc h
  obtain ⟨a, c₁, h₁, h₂⟩ := bind_eq_ok h
  exact hf a _ c₁ b c' (hm past c a c₁ hc h₁) h₂

theorem tells_forM {f : α → ChannelM PUnit} {s : α → Channel → List Strike} {l : List α}
    (h : ∀ a ∈ l, Tells H (f a) (s a)) : Tells H (l.forM f) (strikesOfAll f s l) := by
  induction l with
  | nil => exact tells_of_keeps fun _ => keeps_pure _
  | cons a rest ih =>
    obtain ⟨ha, hrest⟩ := List.forall_mem_cons.1 h
    exact ha.bind fun _ => ih hrest

end Rules

/-- What has to be true of an invariant of the strikes so far and the channel, so that it is true of
what is struck and promised for a sound. Strikes and promises are no softer than the dynamic. -/
structure Rehearsal (H : List Strike → Channel → Prop) : Prop where
  strike : ∀ key {delta : Int} duration offVelocity, 0 ≤ delta →
    Tells H (strike key delta duration offVelocity) fun c => [⟨c, key, delta⟩]
  later : ∀ delta {a : Action} past, a.Loud → Keeps (H past) (later delta a)

namespace Rehearsal

variable {H : List Strike → Channel → Prop} (hH : Rehearsal H)

include hH

theorem playNote (p : Pitch) {delta : Int} (duration offVelocity : Nat) (hdelta : 0 ≤ delta) :
    Tells H (playNote p delta duration offVelocity) (p.strikes delta) := by
  intro past c u c' hc h
  unfold ChannelM.playNote at h
  rw [get_bind] at h
  unfold Pitch.strikes
  cases hkey : c.soundingKey p with
  | some key =>
    rw [hkey] at h
    exact hH.strike key duration offVelocity hdelta past c u c' hc h
  | none =>
    rw [hkey] at h
    cases h
    rwa [List.append_nil]

theorem glissando (p : Pitch) (duration offVelocity : Nat) :
    Tells H (glissando p duration offVelocity) (p.strikes 0) := by
  refine (hH.playNote p duration offVelocity (Int.le_refl 0)).then_keeps fun _ past => ?_
  refine Ensures.bind (keeps_forM fun step _ => ?_) fun _ => hH.later _ past trivial
  exact (keeps_ofOption _).bind fun _ => hH.later _ past trivial

theorem rollTone (size duration offVelocity : Nat) (tone : Pitch × Nat) :
    Tells H (rollTone size duration offVelocity tone)
      (strikesOfRollTone size duration tone) := by
  obtain ⟨p, i⟩ := tone
  intro past c u c' hc h
  obtain ⟨product, c₁, hproduct, h⟩ := bind_eq_ok h
  obtain ⟨hn, rfl⟩ := eq_of_ofOption hproduct
  obtain ⟨-, rfl⟩ := Bounded.nat?_eq_some_iff.1 hn
  unfold strikesOfRollTone
  dsimp only at h ⊢
  by_cases hdelay : duration * i / (size * 4) = 0
  · rw [if_pos hdelay] at h ⊢
    exact hH.playNote p _ offVelocity (Int.le_refl 0) past c₁ u c' hc h
  · rw [if_neg hdelay, List.append_nil]
    rw [if_neg hdelay, get_bind] at h
    cases hkey : c₁.soundingKey p with
    | some key =>
      rw [hkey] at h
      exact hH.later _ past (Action.loud_play _ _ _ (Int.le_refl 0)) c₁ u c' hc h
    | none =>
      rw [hkey] at h
      cases h
      exact hc

theorem strikePlayable (p : Playable) (a : Articulation) (duration : Nat) :
    Tells H (strikePlayable p a duration) (p.strikes a duration) := by
  have hdelta : 0 ≤ a.attackDelta := by cases a <;> decide
  cases p with
  | pitch p =>
    cases a with
    | gliscando => exact hH.glissando p duration _
    | _ => exact hH.playNote p duration _ hdelta
  | chord chord =>
    cases a with
    | gliscando =>
      show Tells H (roll chord duration _) _
      rw [roll_eq]
      exact tells_forM fun tone _ => hH.rollTone _ duration _ tone
    | _ => exact tells_forM fun p _ => hH.playNote p duration _ hdelta

end Rehearsal

/-- What has to be true of an invariant of the actions still due, the strikes so far and the
channel, so that it is true of a sound and the advance behind it. -/
structure Recital (H : List Action → List Strike → Channel → Prop) : Prop
    extends Rehearsal (H []) where
  pop : ∀ {past : List Strike} {c : Channel} {target tick : Nat} {actions : List Action}
    {rest : Agenda Action}, c.pending.popDue? target = some (tick, actions, rest) → H [] past c →
      H actions past { c with pending := rest, clock := max c.clock tick }
  run : ∀ {a : Action} {due : List Action} {past : List Strike} {c c' : Channel},
    H (a :: due) past c → run a c = .ok () c' → H due (past ++ a.strikes c) c'
  rest : ∀ {past : List Strike} {c : Channel} {target : Nat},
    c.pending.popDue? target = none → c.clock ≤ target → H [] past c →
      H [] past { c with clock := target }
  setController : ∀ number value past, Keeps (H [] past) (setController number value)

namespace Recital

variable {H : List Action → List Strike → Channel → Prop} (hH : Recital H)

include hH

/-! ### The clock -/

theorem runAll {as : List Action} {past : List Strike} {c c' : Channel} (h : H as past c)
    (hrun : runAll as c = .ok () c') : H [] (past ++ strikesOfRunning as c) c' := by
  induction as generalizing past c with
  | nil =>
    cases hrun
    show H [] (past ++ []) c'
    rwa [List.append_nil]
  | cons a rest ih =>
    obtain ⟨_, c₁, h₁, h₂⟩ := bind_eq_ok hrun
    show H [] (past ++ (a.strikes c ++
      following (ChannelM.run a) (fun _ => strikesOfRunning rest) c)) c'
    rw [following_of_ok h₁, ← List.append_assoc]
    exact ih (hH.run h h₁) h₂

theorem drain {past : List Strike} {c c' : Channel} {target t : Nat} (h : H [] past c)
    (hle : c.clock ≤ target) (hd : Channel.drain target c = .ok t c') :
    H [] (past ++ c.strikesUntil target) c' := by
  fun_induction Channel.drain target c generalizing past with
  | case1 c hpop =>
    cases hd
    rw [Channel.strikesUntil_of_not_due hpop, List.append_nil]
    exact hH.rest hpop hle h
  | case2 c tick actions rest hpop _ c₁ hrun ih =>
    have hbucket := hH.runAll (hH.pop hpop h) hrun
    have hclock : c₁.clock ≤ target := by
      rw [(fixes_clock_runAll actions).of_ok hrun]
      exact Nat.max_le.2 ⟨hle, Agenda.le_of_popDue? hpop⟩
    rw [Channel.strikesUntil_of_due hpop hrun, ← List.append_assoc]
    exact ih hbucket hclock hd
  | case3 => cases hd

theorem advance (ticks : Nat) :
    Tells (H []) (advance ticks) fun c => c.strikesUntil (c.clock + ticks) := by
  intro past c t c' hc h
  exact hH.drain hc (Nat.le_add_right ..) (drain_of_advance h)

/-! ### Sounds -/

theorem playSound (s : Sound) (b : Beat) : Tells (H []) (playSound s b) (s.strikes b) := by
  intro past c u c' hc h
  unfold ChannelM.playSound at h
  unfold Sound.strikes
  by_cases hrest : s.playable.isRest
  · rw [if_pos hrest] at h ⊢
    cases h
    rwa [List.append_nil]
  · rw [if_neg hrest] at h ⊢
    rw [get_bind] at h
    refine Tells.after_keeps (fun past => ?_) (fun restores => ?_) past c u c' hc h
    · exact compositional_keeps.turnKnobs fun _ _ value => hH.setController _ value past
    · refine (hH.strikePlayable s.playable s.articulation _).then_keeps fun _ past => ?_
      exact keeps_forM fun _ _ => hH.later _ past trivial

theorem advanceBeat (b : Beat) : Tells (H []) (advanceBeat b) fun c =>
    c.strikesUntil (c.clock + c.timing.ticksInBeat b) := by
  intro past c t c' hc h
  unfold ChannelM.advanceBeat at h
  rw [get_bind] at h
  exact hH.advance _ past c t c' hc h

end Recital

/-- What has to be true of an invariant of the actions still due, the strikes so far and the
channel, so that it is true of a phrase, which turns slurring on and off. -/
structure Chronicle (H : List Action → List Strike → Channel → Prop) : Prop extends Recital H where
  setSlurred : ∀ slurred past, Keeps (H [] past) (setSlurred slurred)

namespace Chronicle

variable {H : List Action → List Strike → Channel → Prop} (hH : Chronicle H)

include hH

theorem playElements (slurring : Bool) (l : List (Sound × Beat)) :
    Tells (H []) (playElements slurring l) (strikesOfElements slurring l) := by
  induction l generalizing slurring with
  | nil => exact tells_of_keeps fun _ => keeps_pure _
  | cons element rest ih =>
    refine Tells.after_keeps (fun past => ?_) fun _ => (hH.playSound _ _).bind fun _ => ?_
    · exact compositional_keeps.changeSlur (hH.setController · · past) (hH.setSlurred _ past)
    · exact (hH.advanceBeat _).bind fun _ => ih _

/-- The invariant is true of the strikes of a phrase that was played. -/
theorem playPhrase (p : Phrase) : Tells (H []) (playPhrase p) p.strikes := by
  unfold ChannelM.playPhrase
  by_cases hsize : p.size = 0
  · have hnone : p.strikes = fun _ => [] := by
      unfold Phrase.strikes
      rw [Phrase.elements_of_size hsize]
      rfl
    rw [if_pos hsize, hnone]
    exact tells_of_keeps fun _ => keeps_pure _
  · rw [if_neg hsize]
    intro past c t c' hc h
    refine Tells.then_keeps (hH.playElements false p.elements) (fun _ past => ?_) past c t c' hc h
    refine (hH.setSlurred false past).bind fun _ => (hH.setController _ _ past).bind fun _ => ?_
    exact Ensures.get_bind fun _ => keeps_pure _

end Chronicle

end ChannelM

end MidiScore
