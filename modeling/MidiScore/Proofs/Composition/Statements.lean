import MidiScore.Composition.Block
import MidiScore.Proofs.Channel.Figures

/-!
# Statements succeed or are refused

A statement sends numbers of its own only if it sets an instrument, a bank, a controller or the
bend. If these are in range, and the numbers that it works out fit their words, it succeeds on a
solvent channel and leaves one (`Statement.performs`). Otherwise a message is refused
(`Statement.refuses`).
-/

namespace MidiScore

open Channel ChannelM

namespace Statement

/-- Whether the numbers that a statement sends are in range. -/
def isInRange : Statement → Bool
  | setInstrument program => program ≤ 127
  | setBank bank => bank ≤ 127
  | turnKnob controller value => controller ≤ 127 && value ≤ 127
  | pressPedal controller | releasePedal controller => controller ≤ 127
  | setBend value => value ≤ bendMax
  | _ => true

/-- The numbers that a statement works out from tick `now` on. -/
def figures (s : Statement) (timing : Timing) (now : Nat) : List Figure :=
  match s with
  | playPhrase phrase => elementsFigures timing now phrase.elements
  | rest beat => [.tick (now + timing.ticksInBeat beat)]
  | playRamp ramp => ramp.figures timing now
  | follow directive => directive.figures timing now
  | _ => []

variable {timing : Timing} {now : Nat} {c : Channel} {s : Statement} {op : Operation}

/-- Whatever is no meeting is an operation. -/
theorem exists_operation? (h : ∀ link, s ≠ .meet link) : ∃ op, s.operation? = some op := by
  cases s with
  | meet link => exact absurd rfl (h link)
  | _ => exact ⟨_, rfl⟩

theorem isInRange_of_meet {link : Nat} (h : s = .meet link) : s.isInRange = true := by
  rw [h]
  rfl

/-- A statement with numbers in range succeeds, and promises only what can be done. -/
theorem performs (hop : s.operation? = some op) (hrange : s.isInRange = true)
    (hfits : ∀ f ∈ s.figures timing now, f.Fits) : Spends timing now op.perform := by
  have hdone : ∀ {m : ChannelM Unit}, Affords timing now m → Spends timing now (acknowledge m) :=
    fun hm => hm.spends.acknowledge
  cases s with
  | meet link => cases hop
  | playPhrase phrase =>
    cases hop
    exact (spends_playPhrase hfits).map
  | rest beat =>
    cases hop
    have hlt : now + timing.ticksInBeat beat < 1 <<< 63 := hfits _ (List.mem_singleton_self _)
    exact Spends.map ((achieves_advanceBeat hlt).weaken fun _ _ hc => ⟨_, hc⟩)
  | follow directive =>
    cases hop
    exact (spends_follow hfits).map
  | playRamp ramp =>
    cases hop
    exact hdone (affords_playRamp hfits)
  | setDynamic dynamic =>
    cases hop
    exact hdone (affords_setDynamic dynamic)
  | setOctave octaves =>
    cases hop
    exact hdone (affords_setOctave octaves)
  | setTransposition semitones =>
    cases hop
    exact hdone (affords_setTransposition semitones)
  | setMuted muted =>
    cases hop
    exact hdone (affords_setMuted muted)
  | setInstrument program =>
    cases hop
    exact hdone (affords_setInstrument (of_decide_eq_true hrange))
  | setBank bank =>
    cases hop
    exact hdone (affords_setBank (of_decide_eq_true hrange))
  | turnKnob controller value =>
    cases hop
    obtain ⟨hcontroller, hvalue⟩ := Bool.and_eq_true_iff.1 hrange
    exact hdone (affords_setController (of_decide_eq_true hcontroller) (of_decide_eq_true hvalue))
  | pressPedal controller | releasePedal controller =>
    cases hop
    exact hdone (affords_setController (of_decide_eq_true hrange) (by decide))
  | setBend value =>
    cases hop
    exact hdone (affords_setBend (of_decide_eq_true hrange))

/-- A statement with numbers out of range fails with the message that it cannot send. -/
theorem refuses (hop : s.operation? = some op) (hrange : s.isInRange = false) :
    Refuses op.perform c := by
  have hcontrol : ∀ {number value : Nat}, ¬ (number ≤ 127 ∧ value ≤ 127) →
      Refuses (ChannelM.setController number value) c := by
    intro number value hbad
    refine refuses_get_bind (((refuses_check ?_ c).bind _).bind _)
    exact fun hv => hbad (Message.validate_controlChange.1 hv).2
  cases s with
  | meet link => cases hop
  | setInstrument program =>
    cases hop
    refine (refuses_get_bind ((refuses_check ?_ c).bind _)).bind _
    exact fun hv => of_decide_eq_false hrange (Message.validate_programChange.1 hv).2
  | setBank bank =>
    cases hop
    refine (refuses_get_bind ((refuses_check ?_ c).bind _)).bind _
    exact fun hv => of_decide_eq_false hrange (Message.validate_controlChange.1 hv).2.2
  | turnKnob controller value =>
    cases hop
    refine (hcontrol fun h => ?_).bind _
    rw [isInRange, decide_eq_true h.1, decide_eq_true h.2] at hrange
    cases hrange
  | pressPedal controller | releasePedal controller =>
    cases hop
    exact (hcontrol fun h => of_decide_eq_false hrange h.1).bind _
  | setBend value =>
    cases hop
    refine (refuses_get_bind (((refuses_check ?_ c).bind _).bind _)).bind _
    exact fun hv => of_decide_eq_false hrange (Message.validate_pitchBend.1 hv).1
  | _ => cases hrange

end Statement

end MidiScore
