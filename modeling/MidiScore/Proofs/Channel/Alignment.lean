import Mathlib.Order.Bounds.Basic
import MidiScore.Proofs.Channel.Figures
import MidiScore.Proofs.Channel.Granularity
import MidiScore.Proofs.Channel.Passages
import MidiScore.Proofs.Channel.Scheduler

/-!
# The ticks that directives allow

A directive allows the multiples of its grid and of its alignment, each unless it is zero. The least
of them that is not zero is their common grid, and the least from a tick on is what the clock is set
to (`Directive.alignedTick?_eq`). The word of 64 bits is the only obstacle, for the common grid and
for the tick. Following a directive serves what is due until then, and following it again does
nothing (`ChannelM.follow_eq_serve`, `ChannelM.of_follow`).
-/

namespace MidiScore

namespace Directive

variable {d : Directive} {timing : Timing} {now tick grid : Nat}

/-- The tick is a multiple of the grid and of the alignment, unless there is none. -/
structure Allows (d : Directive) (timing : Timing) (tick : Nat) : Prop where
  grid : d.gridTicks timing ≠ 0 → d.gridTicks timing ∣ tick
  align : d.alignTicks timing ≠ 0 → d.alignTicks timing ∣ tick

/-! ## The common grid -/

theorem allows_iff : d.Allows timing tick ↔ (d.grid timing ≠ 0 → d.grid timing ∣ tick) := by
  have hallows : d.Allows timing tick ↔ (d.gridTicks timing ≠ 0 → d.gridTicks timing ∣ tick) ∧
      (d.alignTicks timing ≠ 0 → d.alignTicks timing ∣ tick) :=
    ⟨fun h => ⟨h.grid, h.align⟩, fun h => ⟨h.1, h.2⟩⟩
  rw [hallows]
  unfold grid
  split
  · next hg => simp [hg]
  · next hg =>
    split
    · next ha => simp [ha]
    · next ha =>
      have hlcm : Nat.lcm (d.gridTicks timing) (d.alignTicks timing) ≠ 0 := Nat.lcm_ne_zero hg ha
      simp only [ne_eq, hg, ha, hlcm, not_false_eq_true, forall_const, Nat.lcm_dvd_iff]

/-- The least common multiple of those that are not zero. -/
theorem isLeast_grid (d : Directive) (timing : Timing) :
    IsLeast {tick | 0 < tick ∧ d.Allows timing tick} (max 1 (d.grid timing)) := by
  refine ⟨⟨by omega, allows_iff.2 fun hgrid => ?_⟩, fun tick htick => ?_⟩
  · have hmax : max 1 (d.grid timing) = d.grid timing :=
      Nat.max_eq_right (Nat.pos_of_ne_zero hgrid)
    exact hmax.symm ▸ Nat.dvd_refl (d.grid timing)
  · obtain ⟨hpos, hallows⟩ := htick
    refine Nat.max_le.2 ⟨hpos, ?_⟩
    by_cases hgrid : d.grid timing = 0
    · rw [hgrid]
      exact Nat.zero_le tick
    · exact Nat.le_of_dvd hpos (allows_iff.1 hallows hgrid)

theorem gridTicks_lt (d : Directive) (timing : Timing) : d.gridTicks timing < 1 <<< 64 := by
  have hmax : maxTick < 1 <<< 64 := by decide
  unfold gridTicks
  cases d.quantize with
  | none => exact Nat.lt_of_le_of_lt (Nat.zero_le _) hmax
  | some beat => exact Nat.lt_of_le_of_lt (nearestTick_le _) hmax

theorem alignTicks_lt (d : Directive) (timing : Timing) : d.alignTicks timing < 1 <<< 64 := by
  have hppqn := timing.ppqn_valid.2
  have hnumerator := timing.signature_valid.1.2
  have hunit : timing.ppqn * 4 / timing.denominator ≤ timing.ppqn * 4 := Nat.div_le_self ..
  have hmeasure : timing.ppqn * 4 * timing.numerator / timing.denominator ≤
      0x8000 * 4 * 256 :=
    Nat.le_trans (Nat.div_le_self ..) (Nat.mul_le_mul (by omega) (by omega))
  unfold alignTicks
  split
  · decide
  · unfold Timing.ticksPerUnit
    omega
  · unfold Timing.ticksPerMeasure
    omega

/-- The common grid is worked out if a word can hold it. -/
theorem commonGrid?_eq (d : Directive) (timing : Timing) :
    commonGrid? (d.gridTicks timing) (d.alignTicks timing) =
      Bounded.nat? 64 (d.grid timing) := by
  unfold commonGrid? grid
  split
  · exact (Bounded.nat?_of_lt (d.alignTicks_lt timing)).symm
  · split
    · exact (Bounded.nat?_of_lt (d.gridTicks_lt timing)).symm
    · rfl

/-- Euclid's algorithm. -/
def euclid (a b : Nat) : Nat :=
  if b = 0 then a else euclid b (a % b)
termination_by b
decreasing_by exact Nat.mod_lt a (Nat.pos_of_ne_zero ‹_›)

theorem euclid_eq_gcd (a b : Nat) : euclid a b = Nat.gcd a b := by
  fun_induction euclid a b with
  | case1 a => exact (Nat.gcd_zero_right a).symm
  | case2 a b hb ih => rw [ih, Nat.gcd_comm b, ← Nat.gcd_rec, Nat.gcd_comm]

/-- The common grid can be worked out in words: the only number on the way to it that may outgrow
one is the common grid itself. -/
theorem commonGrid?_eq_euclid (a b : Nat) :
    commonGrid? a b =
      if a = 0 then some b else if b = 0 then some a else Bounded.nat? 64 (a / euclid a b * b) := by
  have hlcm : Nat.lcm a b = a / euclid a b * b := by
    rw [euclid_eq_gcd, Nat.div_mul_right_comm (Nat.gcd_dvd_left a b)]
    rfl
  unfold commonGrid?
  rw [hlcm]

/-! ## The next tick -/

/-- The least multiple of a grid that is not below a tick. -/
def ceilTo (now grid : Nat) : Nat :=
  if grid = 0 then now else (now + grid - 1) / grid * grid

theorem isLeast_ceilTo (now grid : Nat) :
    IsLeast {tick | now ≤ tick ∧ (grid ≠ 0 → grid ∣ tick)} (ceilTo now grid) := by
  unfold ceilTo
  split
  · next hgrid => exact ⟨⟨Nat.le_refl now, fun h => absurd hgrid h⟩, fun tick htick => htick.1⟩
  · next hgrid =>
    have hpos := Nat.pos_of_ne_zero hgrid
    refine ⟨⟨?_, fun _ => Nat.dvd_mul_left grid _⟩, fun tick htick => ?_⟩
    · have hlt := Nat.lt_div_mul_add (a := now + grid - 1) hpos
      omega
    · obtain ⟨hle, hdvd⟩ := htick
      obtain ⟨n, rfl⟩ := hdvd hgrid
      rw [Nat.mul_comm grid n]
      refine Nat.mul_le_mul_right grid (Nat.lt_succ_iff.1 ((Nat.div_lt_iff_lt_mul hpos).2 ?_))
      rw [Nat.succ_mul, Nat.mul_comm n grid]
      omega

theorem ceilTo_mono {now' : Nat} (h : now ≤ now') (grid : Nat) :
    ceilTo now grid ≤ ceilTo now' grid := by
  obtain ⟨hle, hdvd⟩ := (isLeast_ceilTo now' grid).1
  exact (isLeast_ceilTo now grid).2 ⟨Nat.le_trans h hle, hdvd⟩

/-- A tick on the grid is the next one. -/
theorem ceilTo_ceilTo (now grid : Nat) : ceilTo (ceilTo now grid) grid = ceilTo now grid := by
  obtain ⟨-, hdvd⟩ := (isLeast_ceilTo now grid).1
  exact (isLeast_ceilTo _ grid).unique ⟨⟨Nat.le_refl _, hdvd⟩, fun tick htick => htick.1⟩

theorem isLeast_aligned (d : Directive) (timing : Timing) (now : Nat) :
    IsLeast {tick | now ≤ tick ∧ d.Allows timing tick} (ceilTo now (d.grid timing)) := by
  simp only [allows_iff]
  exact isLeast_ceilTo now (d.grid timing)

/-- Without a grid, the tick is not worked out and need not be checked. -/
theorem alignedTick?_eq_some_iff : d.alignedTick? now timing = some tick ↔
    d.grid timing < 1 <<< 64 ∧ (d.grid timing ≠ 0 → tick < 1 <<< 64) ∧
      tick = ceilTo now (d.grid timing) := by
  have hround : ∀ grid, roundUp? now grid = some tick ↔
      (grid ≠ 0 → tick < 1 <<< 64) ∧ tick = ceilTo now grid := by
    intro grid
    unfold roundUp? ceilTo
    split
    · next hgrid =>
      rw [Option.some.injEq, eq_comm]
      simp [hgrid]
    · next hgrid =>
      rw [Bounded.nat?_eq_some_iff, eq_comm (a := tick)]
      constructor
      · rintro ⟨hlt, rfl⟩
        exact ⟨fun _ => hlt, rfl⟩
      · rintro ⟨hlt, rfl⟩
        exact ⟨hlt hgrid, rfl⟩
  unfold alignedTick?
  rw [commonGrid?_eq, Option.bind_eq_bind, Option.bind_eq_some_iff]
  simp only [Bounded.nat?_eq_some_iff, hround]
  constructor
  · rintro ⟨_, ⟨hgrid, rfl⟩, htick⟩
    exact ⟨hgrid, htick⟩
  · rintro ⟨hgrid, htick⟩
    exact ⟨_, ⟨hgrid, rfl⟩, htick⟩

/-- The least allowed tick from now on is answered, unless it or the common grid outgrows a word. -/
theorem alignedTick?_eq (h : now < 1 <<< 64) :
    d.alignedTick? now timing =
      if d.grid timing < 1 <<< 64 ∧ ceilTo now (d.grid timing) < 1 <<< 64 then
        some (ceilTo now (d.grid timing))
      else none := by
  have hfree : d.grid timing = 0 → ceilTo now (d.grid timing) < 1 <<< 64 := by
    intro hgrid
    unfold ceilTo
    rwa [if_pos hgrid]
  refine Option.ext fun tick => ?_
  rw [alignedTick?_eq_some_iff, Option.ite_none_right_eq_some, Option.some.injEq]
  constructor
  · rintro ⟨hgrid, htick, rfl⟩
    exact ⟨⟨hgrid, (eq_or_ne _ 0).elim hfree htick⟩, rfl⟩
  · rintro ⟨⟨hgrid, htick⟩, rfl⟩
    exact ⟨hgrid, fun _ => htick, rfl⟩

theorem isLeast_of_alignedTick? (h : d.alignedTick? now timing = some tick) :
    IsLeast {tick | now ≤ tick ∧ d.Allows timing tick} tick := by
  obtain ⟨-, -, rfl⟩ := alignedTick?_eq_some_iff.1 h
  exact isLeast_aligned d timing now

/-- From an earlier tick on, the clock is set to no later one. -/
theorem exists_le_of_alignedTick? {now' : Nat} (hle : now ≤ now')
    (h : d.alignedTick? now' timing = some tick) :
    ∃ tick' ≤ tick, d.alignedTick? now timing = some tick' := by
  obtain ⟨hgrid, htick, rfl⟩ := alignedTick?_eq_some_iff.1 h
  have hmono := ceilTo_mono hle (d.grid timing)
  exact ⟨_, hmono, alignedTick?_eq_some_iff.2
    ⟨hgrid, fun hzero => Nat.lt_of_le_of_lt hmono (htick hzero), rfl⟩⟩

theorem alignedTick?_idem (h : d.alignedTick? now timing = some tick) :
    d.alignedTick? tick timing = some tick := by
  obtain ⟨hgrid, htick, rfl⟩ := alignedTick?_eq_some_iff.1 h
  exact alignedTick?_eq_some_iff.2 ⟨hgrid, htick, (ceilTo_ceilTo now _).symm⟩

end Directive

/-! ## Following a directive -/

namespace ChannelM

open Channel

variable {d : Directive} {c c' : Channel} {tick t : Nat}

theorem tick_of_drain (h : drain tick c = .ok t c') : t = tick := by
  fun_induction drain tick c with
  | case1 =>
    cases h
    rfl
  | case2 _ _ _ _ _ _ _ _ ih => exact ih h
  | case3 => cases h

theorem lt_of_advance {ticks : Nat} (h : advance ticks c = .ok t c') :
    c.clock + ticks < 1 <<< 64 := by
  rw [advance_eq_bind] at h
  obtain ⟨target, c₁, htarget, -⟩ := bind_eq_ok h
  obtain ⟨hfits, -⟩ := ensures_ofOption (P := (· = c)) c target c₁ rfl htarget
  exact (Bounded.nat?_eq_some_iff.1 hfits).1

theorem timing_of_drain (hle : c.clock ≤ tick) (h : drain tick c = .ok t c') :
    c'.timing = c.timing :=
  congrArg Setup.timing ((clocked_setup c.setup).drain rfl hle h)

theorem alignedTick?_lt (hnow : c.clock < 1 <<< 64)
    (h : d.alignedTick? c.clock c.timing = some tick) : tick < 1 <<< 64 := by
  rw [Directive.alignedTick?_eq hnow, Option.ite_none_right_eq_some] at h
  obtain ⟨⟨-, hlt⟩, hsome⟩ := h
  rwa [← Option.some.inj hsome]

theorem follow_of_none (h : d.alignedTick? c.clock c.timing = none) :
    follow d c = .error .overflow c := by
  unfold follow
  show (ofOption (d.alignedTick? c.clock c.timing) >>= leapTo) c = _
  rw [h]
  rfl

theorem follow_eq_leapTo (h : d.alignedTick? c.clock c.timing = some tick) :
    follow d c = leapTo tick c := by
  unfold follow
  show (ofOption (d.alignedTick? c.clock c.timing) >>= leapTo) c = _
  rw [h]
  rfl

/-- A directive is followed only to a tick that it leads to. -/
theorem exists_alignedTick?_of_follow (h : follow d c = .ok t c') :
    ∃ tick, d.alignedTick? c.clock c.timing = some tick ∧ leapTo tick c = .ok t c' := by
  cases haligned : d.alignedTick? c.clock c.timing with
  | none =>
    rw [follow_of_none haligned] at h
    cases h
  | some tick =>
    refine ⟨tick, rfl, ?_⟩
    rw [← follow_eq_leapTo haligned]
    exact h

/-- A channel that has followed a directive has come to the least tick that it allows, where nothing
is due any more and where following it again does nothing. -/
theorem of_follow (h : follow d c = .ok t c') :
    d.alignedTick? c.clock c.timing = some t ∧ c'.clock = t ∧
      (∀ p ∈ c'.pending.toList, t < p.1) ∧ follow d c' = .ok t c' := by
  obtain ⟨tick, haligned, hleap⟩ := exists_alignedTick?_of_follow h
  have hle : c.clock ≤ tick := (Directive.isLeast_of_alignedTick? haligned).1.1
  have hlt : tick < 1 <<< 64 := by
    have hdrain := lt_of_advance hleap
    omega
  rw [leapTo_eq_drain_of_le hle hlt] at hleap
  have hclock := clock_of_drain hleap
  obtain rfl : t = tick := tick_of_drain hleap
  refine ⟨haligned, hclock, lt_of_drain hleap, ?_⟩
  have hagain : d.alignedTick? c'.clock c'.timing = some t := by
    rw [hclock, timing_of_drain hle hleap]
    exact Directive.alignedTick?_idem haligned
  rw [follow_eq_leapTo hagain, leapTo_eq_drain_of_le (Nat.le_of_eq hclock) hlt]
  -- to drain once more what was drained is to drain it once
  have hdrained := drain_drain hle (Nat.le_refl t)
  rw [hleap] at hdrained
  exact hdrained

/-- If no action fails, everything that is due by the tick has its turn. -/
theorem follow_eq_serve (hc : c.Consistent) (hnow : c.clock < 1 <<< 64)
    (h : d.alignedTick? c.clock c.timing = some tick) :
    match serve tick c c.pending.toList with
    | .ok (turns, c') => follow d c = .ok tick c' ∧ Complete tick c.pending.toList turns c'.pending
    | .error cause => ∃ c', follow d c = .error cause c' := by
  have hle : c.clock ≤ tick := (Directive.isLeast_of_alignedTick? h).1.1
  have houtcome := outcome_drain hc hle (.of_sorted (Agenda.pairwise_toList _))
  rw [← leapTo_eq_drain_of_le hle (alignedTick?_lt hnow h), ← follow_eq_leapTo h] at houtcome
  unfold served at houtcome
  cases hserve : serve tick c c.pending.toList with
  | ok r =>
    rw [hserve] at houtcome
    refine ⟨?_, (complete_of_serve hserve).2⟩
    cases hfollow : follow d c with
    | ok t c₁ =>
      rw [hfollow] at houtcome
      cases houtcome
      rfl
    | error cause c₁ =>
      rw [hfollow] at houtcome
      cases houtcome
  | error cause =>
    rw [hserve] at houtcome
    cases hfollow : follow d c with
    | ok t c₁ =>
      rw [hfollow] at houtcome
      cases houtcome
    | error cause' c₁ =>
      rw [hfollow] at houtcome
      cases houtcome
      exact ⟨c₁, rfl⟩

end ChannelM

end MidiScore
