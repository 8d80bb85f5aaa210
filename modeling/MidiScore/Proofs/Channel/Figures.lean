import MidiScore.Proofs.Channel.Scored
import MidiScore.Proofs.Channel.Solvent

/-!
# The numbers that sounds and phrases work out

Whatever is played, two kinds of numbers are worked out for it: the ticks to which the clock goes
and on which promises are due, and numbers on the way to a tick, which are greater. If all of these
fit their words, sounds, phrases, ramps and directives do not fail on a solvent channel, and leave a
solvent one: all that they promise can be done.
-/

namespace MidiScore

/-- A number that is worked out, and the bits that it may take. -/
structure Figure where
  value : Nat
  width : Nat

namespace Figure

/-- A tick has to fit a signed word. -/
def tick (n : Nat) : Figure :=
  ⟨n, 63⟩

/-- A number on the way to a tick has to fit an unsigned word. -/
def interim (n : Nat) : Figure :=
  ⟨n, 64⟩

def Fits (f : Figure) : Prop :=
  f.value < 1 <<< f.width

instance : DecidablePred Fits :=
  fun _ => inferInstanceAs (Decidable (_ < _))

end Figure

/-- The numbers for a sound of a written length that is played on tick `start`: its end, and the
multiples of its length from which the bends or the tones of a glissando are placed. -/
def Sound.figures (s : Sound) (b : Beat) (timing : Timing) (start : Nat) : List Figure :=
  if s.playable.isRest then []
  else
    let duration := s.articulation.soundingTicks (timing.ticksInBeat b)
    let shares := match s.playable with
      | .pitch _ => ChannelM.glissandoSteps
      | .chord chord => chord.size
    .tick (start + duration) ::
      if s.articulation = .gliscando then
        (List.range shares).map fun i => .interim (duration * i)
      else []

/-- The numbers for elements that are played one after the other from tick `start` on. -/
def elementsFigures (timing : Timing) (start : Nat) : List (Sound × Beat) → List Figure
  | [] => []
  | (sound, beat) :: rest =>
    let next := start + timing.ticksInBeat beat
    sound.figures beat timing start ++ .tick next :: elementsFigures timing next rest

/-- The numbers for a ramp that starts on tick `start`: the ticks of its steps. -/
def Ramp.figures (r : Ramp) (timing : Timing) (start : Nat) : List Figure :=
  (r.steps (timing.ticksInBeat r.duration)).map fun step => .tick (start + step.1)

/-- The common grid of a directive, whatever word it needs. Zero stands for none. -/
def Directive.grid (d : Directive) (timing : Timing) : Nat :=
  if d.gridTicks timing = 0 then d.alignTicks timing
  else if d.alignTicks timing = 0 then d.gridTicks timing
  else Nat.lcm (d.gridTicks timing) (d.alignTicks timing)

/-- The numbers for a directive that is followed on tick `now`: its common grid, and the tick to
which it leads. -/
def Directive.figures (d : Directive) (timing : Timing) (now : Nat) : List Figure :=
  let grid := d.grid timing
  [.interim grid, .tick (if grid = 0 then now else (now + grid - 1) / grid * grid)]

theorem Articulation.attackDelta_le (a : Articulation) : a.attackDelta.natAbs ≤ 127 := by
  cases a <;> decide

namespace Ramp

theorem velocity_le_of_mem_stepsFrom {α : Type} [RampNumber α] {start slope interval total t : α}
    {n : Nat} {last : Option Nat} {step : Nat × Nat}
    (h : step ∈ stepsFrom start slope interval total n t last) : step.2 ≤ 127 := by
  induction n generalizing t last with
  | zero => cases h
  | succ n ih =>
    unfold stepsFrom at h
    split at h
    · dsimp only at h
      split at h
      · exact ih h
      · rcases List.mem_cons.1 h with rfl | h
        · exact Nat.min_le_right ..
        · exact ih h
    · cases h

/-- The steps of a ramp are velocities. -/
theorem velocity_le_of_mem_steps {r : Ramp} {total : Nat} {step : Nat × Nat}
    (h : step ∈ r.steps total) : step.2 ≤ 127 := by
  unfold steps stepsWith at h
  rcases List.mem_append.1 h with h | h
  · split at h
    · exact velocity_le_of_mem_stepsFrom h
    · cases h
  · obtain rfl := List.mem_singleton.1 h
    exact r.stop.velocity_le

end Ramp

/-- A directive whose numbers fit leads to a tick. -/
theorem Directive.exists_alignedTick? {d : Directive} {timing : Timing} {now : Nat}
    (h : ∀ f ∈ d.figures timing now, f.Fits) :
    ∃ tick, d.alignedTick? now timing = some tick ∧ tick < 1 <<< 63 := by
  obtain ⟨hgrid, htick⟩ := List.forall_mem_cons.1 h
  have htick : _ < 1 <<< 63 := htick _ (List.mem_singleton_self _)
  have hcommon : commonGrid? (d.gridTicks timing) (d.alignTicks timing) = some (d.grid timing) := by
    unfold commonGrid? grid at *
    split
    · rfl
    · split
      · rfl
      · next hg ha =>
        rw [if_neg hg, if_neg ha] at hgrid
        exact Bounded.nat?_of_lt hgrid
  unfold alignedTick?
  rw [hcommon]
  refine ⟨_, ?_, htick⟩
  show roundUp? now (d.grid timing) = _
  unfold roundUp?
  split
  · rfl
  · next hzero =>
    rw [if_neg hzero] at htick
    exact Bounded.nat?_of_lt (Nat.lt_trans htick (by decide))

namespace ChannelM

open Channel

variable {timing : Timing} {now duration offVelocity : Nat}

/-! ## Sounds -/

theorem affords_playNote {p : Pitch} {delta : Int} (hdelta : delta.natAbs ≤ 127)
    (hoff : offVelocity ≤ 127) (hlt : now + duration < 1 <<< 63) :
    Affords timing now (playNote p delta duration offVelocity) := by
  refine achieves_get_bind fun c _ => ?_
  cases hkey : c.soundingKey p with
  | some key => exact affords_strike (soundingKey_le hkey) hdelta hoff hlt
  | none => exact achieves_pure fun _ => id

theorem affords_glissando {p : Pitch} (hoff : offVelocity ≤ 127)
    (hlt : now + duration < 1 <<< 63)
    (hshares : ∀ step < glissandoSteps, duration * step < 1 <<< 64) :
    Affords timing now (glissando p duration offVelocity) := by
  refine (affords_playNote (by decide) hoff hlt).bind fun _ => ?_
  refine (achieves_forM fun step hstep => ?_).bind fun _ => affords_after (a := .resetBend)
    trivial hlt
  have hstep : step < 16 := List.mem_range.1 hstep
  refine achieves_ofOption_bind (Bounded.nat?_of_lt (hshares step hstep)) ?_
  have hdelay : duration * step / 16 ≤ duration :=
    Nat.div_le_of_le_mul (by rw [Nat.mul_comm 16]; exact Nat.mul_le_mul_left duration hstep.le)
  have hvalue : 8192 + 8191 * (step + 1) / 16 ≤ 16383 := by omega
  exact affords_after (a := .bend _) hvalue
    (Nat.lt_of_le_of_lt (Nat.add_le_add_left hdelay now) hlt)

/-- A tone that enters late is promised with what is left of its length. -/
theorem affords_rollTone {p : Pitch} {size i : Nat} (hi : i < size) (hoff : offVelocity ≤ 127)
    (hlt : now + duration < 1 <<< 63) (hshare : duration * i < 1 <<< 64) :
    Affords timing now (rollTone size duration offVelocity (p, i)) := by
  refine achieves_ofOption_bind (Bounded.nat?_of_lt hshare) ?_
  dsimp only
  have hdelay : duration * i / (size * 4) ≤ duration := by
    refine Nat.div_le_of_le_mul ?_
    rw [Nat.mul_comm (size * 4)]
    exact Nat.mul_le_mul_left duration (by omega)
  generalize duration * i / (size * 4) = delay at hdelay ⊢
  split
  · exact affords_playNote (by decide) hoff (by omega)
  · refine achieves_get_bind fun c _ => ?_
    cases hkey : c.soundingKey p with
    | some key =>
      have ha : (Action.play key 0 (duration - delay) offVelocity).Payable (now + delay) :=
        ⟨soundingKey_le hkey, by decide, hoff, by omega⟩
      exact affords_after ha (by omega)
    | none => exact achieves_pure fun _ => id

theorem affords_strikePlayable {s : Sound} (hlt : now + duration < 1 <<< 63)
    (hshares : s.articulation = .gliscando → ∀ i < (match s.playable with
      | .pitch _ => glissandoSteps
      | .chord chord => chord.size), duration * i < 1 <<< 64) :
    Affords timing now (strikePlayable s.playable s.articulation duration) := by
  obtain ⟨playable, a⟩ := s
  have hoff := a.offVelocity_le
  have hdelta := a.attackDelta_le
  cases playable with
  | pitch p =>
    cases a with
    | gliscando => exact affords_glissando hoff hlt (hshares rfl)
    | _ => exact affords_playNote hdelta hoff hlt
  | chord chord =>
    cases a with
    | gliscando =>
      refine achieves_forM (f := rollTone chord.size duration _) fun ⟨p, i⟩ hp => ?_
      have hi : i < chord.size := List.snd_lt_of_mem_zipIdx hp
      exact affords_rollTone hi hoff hlt (hshares rfl i hi)
    | _ => exact achieves_forM fun p _ => affords_playNote hdelta hoff hlt

/-- The knobs stood at values that can be sent. -/
theorem achieves_turnKnobs {knobs : List (Nat × Nat)}
    (h : ∀ knob ∈ knobs, knob.1 ≤ 127 ∧ knob.2 ≤ 127) :
    Achieves (Solvent timing now) (turnKnobs knobs)
      fun old c => (∀ knob ∈ old, knob.1 ≤ 127 ∧ knob.2 ≤ 127) ∧ Solvent timing now c := by
  refine achieves_mapM fun knob hknob => achieves_get_bind fun c hc => ?_
  obtain ⟨hnumber, hvalue⟩ := h knob hknob
  refine (affords_setController hnumber hvalue).bind fun _ => achieves_pure fun c' hc' => ?_
  exact ⟨⟨hnumber, hc.sendable.controllerValue_le knob.1⟩, hc'⟩

theorem affords_playSound {s : Sound} {b : Beat} (h : ∀ f ∈ s.figures b timing now, f.Fits) :
    Affords timing now (playSound s b) := by
  unfold playSound
  unfold Sound.figures at h
  by_cases hrest : s.playable.isRest
  · rw [if_pos hrest]
    exact achieves_pure fun _ => id
  · rw [if_neg hrest] at h ⊢
    obtain ⟨hlt, hshares⟩ := List.forall_mem_cons.1 h
    refine achieves_get_bind fun c hc => ?_
    rw [hc.timing_eq]
    refine (achieves_turnKnobs s.articulation.knobs_le).bind fun old => .of_fact fun hold => ?_
    refine (affords_strikePlayable hlt fun ha i hi => ?_).bind fun _ => achieves_forM ?_
    · rw [if_pos ha] at hshares
      exact hshares _ (List.mem_map_of_mem (List.mem_range.2 hi))
    · rintro ⟨number, value⟩ hknob
      exact affords_after (a := .turnKnob number value) (hold _ hknob) hlt

/-! ## Phrases and ramps -/

theorem affords_changeSlur (slurring slurred : Bool) :
    Affords timing now (changeSlur slurring slurred) := by
  have hpedal : ∀ {value}, value ≤ 127 →
      Affords timing now (setController Controller.sustain value) :=
    fun h => affords_setController (by decide) h
  cases slurred <;> cases slurring
  · exact achieves_pure fun _ => id
  · exact (affords_setSlurred _).bind fun _ => hpedal (by decide)
  · exact (hpedal (by decide)).bind fun _ => affords_setSlurred _
  · exact achieves_pure fun _ => id

theorem spends_playElements {slurring : Bool} {l : List (Sound × Beat)}
    (h : ∀ f ∈ elementsFigures timing now l, f.Fits) :
    Spends timing now (playElements slurring l) := by
  induction l generalizing slurring now with
  | nil => exact achieves_pure fun c hc => ⟨now, hc⟩
  | cons element rest ih =>
    obtain ⟨sound, beat⟩ := element
    obtain ⟨hsound, hnext⟩ := List.forall_mem_append.1 h
    obtain ⟨hlt, hrest⟩ := List.forall_mem_cons.1 hnext
    refine (affords_changeSlur _ _).bind fun _ => (affords_playSound hsound).bind fun _ => ?_
    exact (achieves_advanceBeat hlt).bind fun _ => ih hrest

theorem spends_playPhrase {p : Phrase}
    (h : ∀ f ∈ elementsFigures timing now p.elements, f.Fits) :
    Spends timing now (playPhrase p) := by
  unfold playPhrase
  split
  · exact achieves_pure fun c hc => ⟨now, hc⟩
  · refine achieves_get_bind fun c hc => (spends_playElements h).bind fun _ => ?_
    rintro c₁ ⟨later, h₁⟩
    have hoff : Affords timing later (do
        setSlurred false
        releasePedal Controller.sustain
        return (← get).clock - c.clock) := by
      refine (affords_setSlurred false).bind fun _ => ?_
      refine (affords_setController (by decide) (by decide)).bind fun _ => ?_
      exact achieves_get_bind fun _ _ => achieves_pure fun _ => id
    obtain ⟨ticks, c', hrun, hc'⟩ := hoff c₁ h₁
    exact ⟨ticks, c', hrun, later, hc'⟩

theorem affords_playRamp {r : Ramp} (h : ∀ f ∈ r.figures timing now, f.Fits) :
    Affords timing now (playRamp r) := by
  refine achieves_get_bind fun c hc => ?_
  rw [hc.timing_eq]
  refine (affords_setDynamic r.start).bind fun _ => achieves_forM fun step hstep => ?_
  have hlt : now + step.1 < 1 <<< 63 := h _ (List.mem_map_of_mem hstep)
  have hvelocity := Ramp.velocity_le_of_mem_steps hstep
  unfold promiseDynamic Dynamic.ofVelocity
  rw [dif_pos hvelocity]
  exact affords_after (a := .setDynamic _) trivial hlt

theorem spends_follow {d : Directive} (h : ∀ f ∈ d.figures timing now, f.Fits) :
    Spends timing now (follow d) := by
  refine achieves_get_bind fun c hc => ?_
  rw [hc.timing_eq, hc.clock_eq]
  obtain ⟨tick, htick, hlt⟩ := Directive.exists_alignedTick? h
  exact achieves_ofOption_bind htick (spends_leapTo hlt)

end ChannelM

end MidiScore
