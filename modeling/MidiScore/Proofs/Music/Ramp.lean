import Mathlib.Algebra.Order.Floor.Semiring
import Mathlib.Data.List.Chain
import Mathlib.Data.List.Iterate
import MidiScore.Proofs.Number.Shown

/-!
# The steps of a ramp

The loop that draws a ramp adds up an interval that is not exact, rounds the sum to a tick, and the
line through the start at that tick to a velocity. All of it is computed with floating-point
numbers, so each velocity lies near the line, and each time near a multiple of the exact interval
(`Sloped.shows_time`). That is close enough: times that are rounded to different ticks lie so far
apart that the line rises by a quarter of a unit between their ticks (`Sloped.quarter_le`), far more
than the velocities are off. So the loop ends, the ticks do not fall, and the velocities keep to the
direction of the ramp (`Ramp.staircase_steps`).
-/

namespace MidiScore

/-- Whether a change of velocity keeps to the direction of the ramp. -/
def RampKind.Toward : RampKind → Nat → Nat → Prop
  | crescendo, v, w => v ≤ w
  | decrescendo, v, w => w ≤ v

theorem RampKind.Toward.refl (kind : RampKind) (v : Nat) : kind.Toward v v := by
  cases kind <;> exact Nat.le_refl v

namespace Ramp

/-! ## The loop -/

section Loop

variable {α : Type} [RampNumber α] {start slope interval total t : α} {last : Option Nat}

/-- The step at a time, as tick and velocity. -/
def stepAt (start slope t : α) : Nat × Nat :=
  (RampNumber.nearest t, velocityAt start slope (RampNumber.nearest t))

/-- The loop that draws the line from a time on, behind the last velocity that was listed, ends
however many times it has to run, and has then listed these steps. -/
inductive Draws (start slope interval total : α) : α → Option Nat → List (Nat × Nat) → Prop
  | done {t : α} {last : Option Nat} (h : RampNumber.less t total = false) :
      Draws start slope interval total t last []
  | step {t : α} {last : Option Nat} {later : List (Nat × Nat)}
      (h : RampNumber.less t total = true)
      (run : Draws start slope interval total (t + interval)
        (some (stepAt start slope t).2) later) :
      Draws start slope interval total t last
        (if last = some (stepAt start slope t).2 then later else stepAt start slope t :: later)

/-- If the time has come to the end after `n` steps, `n` steps are all there are. -/
theorem draws_stepsFrom {n : Nat} (h : RampNumber.less ((· + interval)^[n] t) total = false) :
    Draws start slope interval total t last (stepsFrom start slope interval total n t last) := by
  induction n generalizing t last with
  | zero => exact .done h
  | succ n ih =>
    unfold stepsFrom
    split
    · next hless => exact .step hless (ih h)
    · next hless => exact .done (Bool.not_eq_true _ ▸ hless)

/-- The steps are some of those at the times before the end. -/
theorem stepsFrom_sublist (n : Nat) :
    (stepsFrom start slope interval total n t last).Sublist
      (((List.iterate (· + interval) t n).filter (RampNumber.less · total)).map
        (stepAt start slope)) := by
  induction n generalizing t last with
  | zero => exact List.nil_sublist _
  | succ n ih =>
    unfold stepsFrom
    split
    · next hless =>
      rw [List.iterate, List.filter_cons, if_pos hless, List.map_cons]
      dsimp only
      split
      · exact ih.cons _
      · exact ih.cons_cons _
    · exact List.nil_sublist _

/-- No two steps that follow on one another have the same velocity. -/
theorem isChain_stepsFrom (n : Nat) :
    (last.toList ++
      (stepsFrom start slope interval total n t last).map Prod.snd).IsChain (· ≠ ·) := by
  induction n generalizing t last with
  | zero => cases last <;> simp [stepsFrom]
  | succ n ih =>
    unfold stepsFrom
    split
    · dsimp only
      split
      · next hlast =>
        rw [hlast]
        exact ih
      · next hlast =>
        cases last with
        | none => exact @ih _ (some _)
        | some velocity =>
          exact List.isChain_cons_cons.2 ⟨fun heq => hlast (congrArg some heq), @ih _ (some _)⟩
    · cases last <;> simp

theorem head?_stepsFrom {n : Nat} (h : RampNumber.less t total = true) :
    (stepsFrom start slope interval total (n + 1) t none).head? = some (stepAt start slope t) := by
  unfold stepsFrom
  rw [if_pos h]
  rfl

end Loop

/-! ## The line -/

section Line

variable (r : Ramp) (total : Nat)

/-- The slope that the loop computes. -/
def slope : Float :=
  RampNumber.ofInt r.rise / RampNumber.ofInt total

/-- The interval that the loop computes. -/
def interval : Float :=
  RampNumber.ofInt total / RampNumber.ofInt r.rise.natAbs

/-- The time at which the loop runs once more after `k` times. -/
def time (k : Nat) : Float :=
  (· + r.interval total)^[k] (RampNumber.ofInt 0)

/-- Whether it does so. -/
def runs (k : Nat) : Bool :=
  RampNumber.less (r.time total k) (RampNumber.ofInt total)

/-- The tick of that time. -/
def tick (k : Nat) : Nat :=
  RampNumber.nearest (r.time total k)

/-- The velocity that the loop computes at a tick. -/
def velocityOn (tick : Nat) : Nat :=
  velocityAt (RampNumber.ofInt r.start.velocity) (r.slope total) tick

/-- The step of that time. -/
def stepOn (k : Nat) : Nat × Nat :=
  (r.tick total k, r.velocityOn total (r.tick total k))

/-- The steps that the loop lists. -/
def drawn : List (Nat × Nat) :=
  if r.rise ≠ 0 ∧ 0 < total then
    stepsFrom (RampNumber.ofInt r.start.velocity) (r.slope total) (r.interval total)
      (RampNumber.ofInt total) (r.rise.natAbs + 1) (r.time total 0) none
  else []

theorem steps_eq : r.steps total = r.drawn total ++ [(total, r.stop.velocity)] :=
  rfl

/-- The line that the velocities follow. -/
def line (tick : Nat) : ℚ :=
  r.start.velocity + r.rise * tick / total

end Line

theorem natAbs_rise_le (r : Ramp) : r.rise.natAbs ≤ 127 := by
  have hstart := r.start.velocity_le
  have hstop := r.stop.velocity_le
  unfold rise
  omega

theorem abs_rise_le (r : Ramp) : |(r.rise : ℚ)| ≤ 127 := by
  rw [← Int.cast_abs, Int.abs_eq_natAbs]
  exact_mod_cast r.natAbs_rise_le

theorem rise_ne_zero {r : Ramp} (h : r.start ≠ r.stop) : r.rise ≠ 0 := by
  obtain ⟨kind, ⟨start, _⟩, ⟨stop, _⟩, duration⟩ := r
  intro hrise
  unfold rise at hrise
  dsimp only at hrise
  obtain rfl : start = stop := by omega
  exact h rfl

/-- A ramp that the loop draws, over a number of ticks that numbers show exactly. -/
structure Sloped (r : Ramp) (total : Nat) : Prop where
  rise_ne : r.rise ≠ 0
  pos : 0 < total
  lt : total < 2 ^ 53

namespace Sloped

variable {r : Ramp} {total tick : Nat}

theorem one_le (h : Sloped r total) : (1 : ℚ) ≤ total := by
  exact_mod_cast h.pos

theorem le_two_pow (h : Sloped r total) : (total : ℚ) ≤ 2 ^ 53 := by
  exact_mod_cast h.lt.le

theorem one_le_natAbs (h : Sloped r total) : (1 : ℚ) ≤ r.rise.natAbs := by
  exact_mod_cast Int.natAbs_pos.2 h.rise_ne

/-- Over the whole ramp the line rises by no more than the velocities differ. -/
theorem abs_rise_mul_div_le (h : Sloped r total) (htick : tick ≤ total) :
    |(r.rise : ℚ) * tick / total| ≤ 127 := by
  have hone := h.one_le
  have htick' : (tick : ℚ) ≤ total := by exact_mod_cast htick
  rw [abs_div, abs_mul, Nat.abs_cast, Nat.abs_cast, div_le_iff₀ (by linarith)]
  exact mul_le_mul r.abs_rise_le htick' (by positivity) (by norm_num)

theorem shows_slope (h : Sloped r total) :
    ∃ a, Shows (r.slope total) a ∧ |a - r.rise / total| ≤ 127 / total / 2 ^ 53 := by
  have hone := h.one_le
  have hle := h.le_two_pow
  have hpos : (0 : ℚ) < total := by linarith
  have hbound : Moderate (127 / total) := by
    constructor
    · rw [le_div_iff₀ hpos]
      calc (2 : ℚ) ^ (-200 : ℤ) * total ≤ 2 ^ (-200 : ℤ) * 2 ^ 53 := by gcongr
        _ ≤ 127 := by norm_num
    · calc (127 : ℚ) / total ≤ 127 := div_le_self (by norm_num) hone
        _ ≤ 2 ^ (200 : ℤ) := by norm_num
  have hrise : Shows (RampNumber.ofInt r.rise) r.rise :=
    shows_ofInt (Nat.lt_of_le_of_lt r.natAbs_rise_le (by decide))
  refine hrise.div (shows_ofNat h.lt) hpos.ne' hbound ?_
  rw [abs_div, abs_of_pos hpos]
  exact div_le_div_of_nonneg_right r.abs_rise_le hpos.le

theorem shows_interval (h : Sloped r total) :
    ∃ i, Shows (r.interval total) i ∧ |i - total / r.rise.natAbs| ≤ total / 2 ^ 53 := by
  have hone := h.one_le
  have hrise := h.one_le_natAbs
  have hbound : Moderate total := by
    constructor
    · exact le_trans (by norm_num) hone
    · exact h.le_two_pow.trans (by norm_num)
  have hnatAbs : Shows (RampNumber.ofInt r.rise.natAbs) r.rise.natAbs :=
    shows_ofNat (Nat.lt_of_le_of_lt r.natAbs_rise_le (by decide))
  refine (shows_ofNat h.lt).div hnatAbs (by linarith) hbound ?_
  rw [abs_of_nonneg (by positivity)]
  exact div_le_self (by linarith) hrise

/-! ## Velocities -/

/-- What is rounded to a velocity lies near the line. -/
theorem shows_line (h : Sloped r total) (htick : tick ≤ total) :
    ∃ v, Shows (r.slope total * RampNumber.ofInt tick + RampNumber.ofInt r.start.velocity) v ∧
      |v - r.line total tick| ≤ 1 / 2 ^ 43 := by
  have hone := h.one_le
  have hpos : (0 : ℚ) < total := by linarith
  have htick' : (tick : ℚ) ≤ total := by exact_mod_cast htick
  have hexact := h.abs_rise_mul_div_le htick
  have hstart : (r.start.velocity : ℚ) ≤ 127 := by exact_mod_cast r.start.velocity_le
  obtain ⟨a, ha, haerror⟩ := h.shows_slope
  have hslope : |a * tick - r.rise * tick / total| ≤ 127 / 2 ^ 53 :=
    calc |a * tick - r.rise * tick / total|
        = |a - r.rise / total| * tick := by
          rw [← Nat.abs_cast tick, ← abs_mul, Nat.abs_cast]
          ring_nf
      _ ≤ 127 / total / 2 ^ 53 * total := by gcongr
      _ = 127 / 2 ^ 53 := by field_simp
  rw [abs_le] at hslope hexact
  have hofTick : Shows (RampNumber.ofInt tick) tick :=
    shows_ofNat (Nat.lt_of_le_of_lt htick h.lt)
  have hofStart : Shows (RampNumber.ofInt r.start.velocity) r.start.velocity :=
    shows_ofNat (Nat.lt_of_le_of_lt r.start.velocity_le (by decide))
  have hmul : |a * tick| ≤ 256 := by
    rw [abs_le]
    constructor <;> linarith
  obtain ⟨p, hp, hperror⟩ := ha.mul hofTick ⟨by norm_num, by norm_num⟩ hmul
  rw [abs_le] at hperror
  have hadd : |p + r.start.velocity| ≤ 512 := by
    rw [abs_le]
    constructor <;> linarith
  obtain ⟨v, hv, hverror⟩ := hp.add hofStart ⟨by norm_num, by norm_num⟩ hadd
  rw [abs_le] at hverror
  refine ⟨v, hv, ?_⟩
  unfold Ramp.line
  rw [abs_le]
  constructor <;> linarith

/-- A velocity is the nearest one to a number near the line. -/
theorem exists_velocityOn (h : Sloped r total) (htick : tick ≤ total) :
    ∃ v : ℚ, r.velocityOn total tick = min ⌊v + 1 / 2⌋.toNat 127 ∧
      |v - r.line total tick| ≤ 1 / 2 ^ 43 := by
  obtain ⟨v, hv, herror⟩ := h.shows_line htick
  refine ⟨v, ?_, herror⟩
  have hexact := h.abs_rise_mul_div_le htick
  have hstart : (r.start.velocity : ℚ) ≤ 127 := by exact_mod_cast r.start.velocity_le
  have hle : v ≤ 2 ^ 63 := by
    unfold Ramp.line at herror
    rw [abs_le] at herror hexact
    linarith
  rw [← nearestTick_of_shows hv hle]
  rfl

theorem velocityOn_le {n : Nat} (h : Sloped r total) (htick : tick ≤ total)
    (hle : r.line total tick ≤ n) : r.velocityOn total tick ≤ n := by
  obtain ⟨v, hvelocity, herror⟩ := h.exists_velocityOn htick
  rw [abs_le] at herror
  have hfloor : ⌊v + 1 / 2⌋ < n + 1 := by
    rw [Int.floor_lt]
    push_cast
    linarith
  omega

theorem le_velocityOn {n : Nat} (h : Sloped r total) (htick : tick ≤ total) (hn : n ≤ 127)
    (hle : n ≤ r.line total tick) : n ≤ r.velocityOn total tick := by
  obtain ⟨v, hvelocity, herror⟩ := h.exists_velocityOn htick
  rw [abs_le] at herror
  have hfloor : (n : ℤ) ≤ ⌊v + 1 / 2⌋ := by
    rw [Int.le_floor]
    push_cast
    linarith
  omega

/-- Where the line rises by a quarter, the velocity does not fall. -/
theorem velocityOn_le_velocityOn {tick' : Nat} (h : Sloped r total) (htick : tick ≤ total)
    (htick' : tick' ≤ total) (hle : r.line total tick + 1 / 4 ≤ r.line total tick') :
    r.velocityOn total tick ≤ r.velocityOn total tick' := by
  obtain ⟨v, hvelocity, herror⟩ := h.exists_velocityOn htick
  obtain ⟨v', hvelocity', herror'⟩ := h.exists_velocityOn htick'
  rw [abs_le] at herror herror'
  have hfloor : ⌊v + 1 / 2⌋ ≤ ⌊v' + 1 / 2⌋ := Int.floor_le_floor (by linarith)
  omega

/-! ## Times -/

theorem shows_time_zero (r : Ramp) (total : Nat) : Shows (r.time total 0) 0 := by
  rw [← Nat.cast_zero]
  exact shows_ofNat (n := 0) (by decide)

theorem time_succ (r : Ramp) (total k : Nat) :
    r.time total (k + 1) = r.time total k + r.interval total :=
  Function.iterate_succ_apply' ..

/-- The times lie near the multiples of the interval. -/
theorem shows_time {k : Nat} (h : Sloped r total) (hk : k ≤ 128) :
    ∃ q, Shows (r.time total k) q ∧ |q - k * (total / r.rise.natAbs)| ≤ k * (total / 2 ^ 44) := by
  induction k with
  | zero => exact ⟨0, shows_time_zero r total, by simp⟩
  | succ k ih =>
    obtain ⟨q, hq, herror⟩ := ih (by omega)
    obtain ⟨i, hi, hinterval⟩ := h.shows_interval
    have hone := h.one_le
    have hk : (k : ℚ) ≤ 127 := by exact_mod_cast Nat.le_of_lt_succ hk
    have hexact : (total : ℚ) / r.rise.natAbs ≤ total :=
      div_le_self (by linarith) h.one_le_natAbs
    have hpos : (0 : ℚ) ≤ total / r.rise.natAbs := by positivity
    have hmul : (k : ℚ) * (total / r.rise.natAbs) ≤ 127 * total := by gcongr
    have herrors : (k : ℚ) * (total / 2 ^ 44) ≤ 127 * (total / 2 ^ 44) := by gcongr
    have hbound : Moderate (256 * total) := by
      constructor
      · exact le_trans (by norm_num) (mul_le_mul_of_nonneg_left hone (by norm_num))
      · exact (mul_le_mul_of_nonneg_left h.le_two_pow (by norm_num)).trans (by norm_num)
    have hpos' : (0 : ℚ) ≤ k * (total / r.rise.natAbs) := by positivity
    rw [abs_le] at herror hinterval
    have hsum : |q + i| ≤ 256 * total := by
      rw [abs_le]
      constructor <;> linarith
    obtain ⟨q', hq', herror'⟩ := hq.add hi hbound hsum
    refine ⟨q', by rwa [time_succ], ?_⟩
    rw [abs_le] at herror' ⊢
    push_cast
    constructor <;> linarith

/-- The number `q` stands for the time after `k` steps. -/
structure Time (r : Ramp) (total k : Nat) (q : ℚ) : Prop where
  nonneg : 0 ≤ q
  le : q ≤ k * (total / r.rise.natAbs) + total / 2 ^ 37
  ge : k * (total / r.rise.natAbs) - total / 2 ^ 37 ≤ q
  runs_iff : r.runs total k ↔ q < total
  tick_eq : (r.tick total k : ℤ) = ⌊q + 1 / 2⌋

/-- The exact interval is no less than if there were a step for each velocity there is. -/
theorem le_interval (h : Sloped r total) : (total : ℚ) / 127 ≤ total / r.rise.natAbs := by
  have hpos := h.one_le_natAbs
  have hle : (r.rise.natAbs : ℚ) ≤ 127 := by exact_mod_cast r.natAbs_rise_le
  exact div_le_div_of_nonneg_left (by positivity) (by linarith) hle

theorem exists_time {k : Nat} (h : Sloped r total) (hk : k ≤ 128) : ∃ q, Time r total k q := by
  obtain ⟨q, hq, herror⟩ := h.shows_time hk
  have hone := h.one_le
  have hk : (k : ℚ) ≤ 128 := by exact_mod_cast hk
  have hinterval := h.le_interval
  have hexact : (total : ℚ) / r.rise.natAbs ≤ total :=
    div_le_self (by linarith) h.one_le_natAbs
  have hmul : (k : ℚ) * (total / r.rise.natAbs) ≤ 128 * total := by gcongr
  have herrors : (k : ℚ) * (total / 2 ^ 44) ≤ 128 * (total / 2 ^ 44) := by gcongr
  have hsmall : (k : ℚ) * (total / 2 ^ 44) ≤ k * (total / r.rise.natAbs) :=
    mul_le_mul_of_nonneg_left (by linarith) (Nat.cast_nonneg k)
  rw [abs_le] at herror
  have hnonneg : 0 ≤ q := by linarith
  have hle : q ≤ 2 ^ 63 :=
    calc q ≤ 256 * total := by linarith
      _ ≤ 256 * 2 ^ 53 := by
        have := h.le_two_pow
        gcongr
      _ ≤ 2 ^ 63 := by norm_num
  refine ⟨q, hnonneg, by linarith, by linarith,
    less_iff hq (shows_ofNat h.lt) hnonneg (by linarith), ?_⟩
  rw [← Int.toNat_of_nonneg (Int.floor_nonneg.2 (by linarith)), ← nearestTick_of_shows hq hle]
  rfl

/-- After a step for each velocity and one more, the time has come to the end. -/
theorem runs_end (h : Sloped r total) : r.runs total (r.rise.natAbs + 1) = false := by
  obtain ⟨q, hq⟩ := h.exists_time (Nat.succ_le_succ r.natAbs_rise_le)
  have hone := h.one_le
  have hinterval := h.le_interval
  have hge := hq.ge
  have hexact : ((r.rise.natAbs + 1 : Nat) : ℚ) * (total / r.rise.natAbs) =
      total + total / r.rise.natAbs := by
    have := h.one_le_natAbs
    push_cast
    field_simp
  rw [Bool.eq_false_iff, Ne, hq.runs_iff, not_lt]
  linarith

theorem runs_zero (h : Sloped r total) : r.runs total 0 := by
  have hpos : (0 : ℚ) < total := by exact_mod_cast h.pos
  exact (less_iff (shows_time_zero r total) (shows_ofNat h.lt) le_rfl hpos).2 hpos

theorem tick_zero (r : Ramp) (total : Nat) : r.tick total 0 = 0 :=
  (nearestTick_of_shows (shows_time_zero r total) (by norm_num)).trans (by norm_num)

/-- A time before the end is rounded to a tick that is not after it. -/
theorem tick_le {k : Nat} (h : Sloped r total) (hk : k ≤ 128) (hruns : r.runs total k) :
    r.tick total k ≤ total := by
  obtain ⟨q, hq⟩ := h.exists_time hk
  have hlt := hq.runs_iff.1 hruns
  have hfloor : ⌊q + 1 / 2⌋ < total + 1 := by
    rw [Int.floor_lt]
    push_cast
    linarith
  have htick := hq.tick_eq
  omega

/-- A later time is later by at least half an interval. -/
theorem Time.half_le {i j : Nat} {q q' : ℚ} (h : Sloped r total) (hq : Time r total i q)
    (hq' : Time r total j q') (hij : i < j) : q + total / r.rise.natAbs / 2 ≤ q' := by
  have hone := h.one_le
  have hinterval := h.le_interval
  have hle := hq.le
  have hge := hq'.ge
  have hstep : ((i : ℚ) + 1) * (total / r.rise.natAbs) ≤ j * (total / r.rise.natAbs) := by
    gcongr
    exact_mod_cast hij
  linarith

theorem tick_le_tick {i j : Nat} (h : Sloped r total) (hij : i < j) (hj : j ≤ 128) :
    r.tick total i ≤ r.tick total j := by
  obtain ⟨q, hq⟩ := h.exists_time (hij.le.trans hj)
  obtain ⟨q', hq'⟩ := h.exists_time hj
  have hhalf := Time.half_le h hq hq' hij
  have hpos : (0 : ℚ) ≤ total / r.rise.natAbs := by positivity
  have hfloor : ⌊q + 1 / 2⌋ ≤ ⌊q' + 1 / 2⌋ := Int.floor_le_floor (by linarith)
  rw [← hq.tick_eq, ← hq'.tick_eq] at hfloor
  exact_mod_cast hfloor

/-- Between times that are rounded to different ticks the line changes by at least a quarter. -/
theorem quarter_le {i j : Nat} (h : Sloped r total) (hij : i < j) (hj : j ≤ 128)
    (hlt : r.tick total i < r.tick total j) :
    (1 : ℚ) / 4 ≤ r.rise.natAbs * ((r.tick total j : ℚ) - r.tick total i) / total := by
  obtain ⟨q, hq⟩ := h.exists_time (hij.le.trans hj)
  obtain ⟨q', hq'⟩ := h.exists_time hj
  have hhalf := Time.half_le h hq hq' hij
  have hone := h.one_le
  have hrise := h.one_le_natAbs
  -- ticks are a unit apart, and apart by more than the times less a unit
  have hunit : (r.tick total i : ℚ) + 1 ≤ r.tick total j := by exact_mod_cast hlt
  have hearly : (r.tick total i : ℚ) ≤ q + 1 / 2 := by
    have hfloor := Int.floor_le (q + 1 / 2)
    rwa [← hq.tick_eq, Int.cast_natCast] at hfloor
  have hlate : q' + 1 / 2 < (r.tick total j : ℚ) + 1 := by
    have hfloor := Int.lt_floor_add_one (q' + 1 / 2)
    rwa [← hq'.tick_eq, Int.cast_natCast] at hfloor
  have hquarter : (total : ℚ) / r.rise.natAbs ≤ 4 * (r.tick total j - r.tick total i) := by
    linarith
  rw [div_le_iff₀ (by linarith)] at hquarter
  rw [le_div_iff₀ (by linarith)]
  linarith

end Sloped

/-! ## Directions -/

section Directions

variable {r : Ramp} {total : Nat}

/-- A ramp does not move against its direction. -/
theorem toward_of_between {kind : RampKind} {start stop : Dynamic} {duration : Beat}
    (h : between kind start stop duration = .ok r) :
    r = { kind, start, stop, duration } ∧ kind.Toward start.velocity stop.velocity := by
  unfold between at h
  cases kind <;> dsimp only at h <;> split at h
  · cases h
  · next hdir => exact ⟨(Except.ok.inj h).symm, by simpa [RampKind.Toward] using hdir⟩
  · cases h
  · next hdir => exact ⟨(Except.ok.inj h).symm, by simpa [RampKind.Toward] using hdir⟩

/-- The rise of a ramp, from its size. -/
theorem rise_eq (hr : r.kind.Toward r.start.velocity r.stop.velocity) :
    (r.kind = .crescendo ∧ (r.rise : ℚ) = r.rise.natAbs) ∨
    (r.kind = .decrescendo ∧ (r.rise : ℚ) = -r.rise.natAbs) := by
  cases hkind : r.kind <;> rw [hkind] at hr
  · have hle : r.start.velocity ≤ r.stop.velocity := hr
    have habs : r.rise = r.rise.natAbs := by
      unfold rise
      omega
    exact .inl ⟨rfl, by rw [← Int.cast_natCast, ← habs]⟩
  · have hle : r.stop.velocity ≤ r.start.velocity := hr
    have habs : r.rise = -r.rise.natAbs := by
      unfold rise
      omega
    exact .inr ⟨rfl, by rw [← Int.cast_natCast, ← Int.cast_neg, ← habs]⟩

namespace Sloped

/-- The velocities at different ticks of the loop keep to the direction. -/
theorem toward_velocityOn {tick tick' : Nat} (h : Sloped r total)
    (hr : r.kind.Toward r.start.velocity r.stop.velocity) (htick : tick ≤ total)
    (htick' : tick' ≤ total)
    (hquarter : (1 : ℚ) / 4 ≤ r.rise.natAbs * ((tick' : ℚ) - tick) / total) :
    r.kind.Toward (r.velocityOn total tick) (r.velocityOn total tick') := by
  rw [mul_sub, sub_div] at hquarter
  obtain ⟨hkind, hrise⟩ | ⟨hkind, hrise⟩ := rise_eq hr <;> rw [hkind]
  · refine h.velocityOn_le_velocityOn htick htick' ?_
    unfold Ramp.line
    rw [hrise]
    linarith
  · refine h.velocityOn_le_velocityOn htick' htick ?_
    unfold Ramp.line
    rw [hrise, neg_mul, neg_div, neg_mul, neg_div]
    linarith

/-- The velocities of the loop lie between the start and the end. -/
theorem between_velocityOn {tick : Nat} (h : Sloped r total)
    (hr : r.kind.Toward r.start.velocity r.stop.velocity) (htick : tick ≤ total) :
    r.kind.Toward r.start.velocity (r.velocityOn total tick) ∧
      r.kind.Toward (r.velocityOn total tick) r.stop.velocity := by
  have hone := h.one_le
  have hstop : (r.stop.velocity : ℚ) = r.start.velocity + r.rise := by
    unfold rise
    push_cast
    ring
  have hpart : (0 : ℚ) ≤ r.rise.natAbs * tick / total := by positivity
  have hwhole : (r.rise.natAbs : ℚ) * tick / total ≤ r.rise.natAbs := by
    rw [div_le_iff₀ (by linarith)]
    gcongr
  obtain ⟨hkind, hrise⟩ | ⟨hkind, hrise⟩ := rise_eq hr <;> rw [hkind]
  · constructor
    · refine h.le_velocityOn htick r.start.velocity_le ?_
      unfold Ramp.line
      rw [hrise]
      linarith
    · refine h.velocityOn_le htick ?_
      unfold Ramp.line
      rw [hstop, hrise]
      linarith
  · constructor
    · refine h.velocityOn_le htick ?_
      unfold Ramp.line
      rw [hrise, neg_mul, neg_div]
      linarith
    · refine h.le_velocityOn htick r.stop.velocity_le ?_
      unfold Ramp.line
      rw [hstop, hrise, neg_mul, neg_div]
      linarith

theorem velocityOn_zero (h : Sloped r total) : r.velocityOn total 0 = r.start.velocity := by
  have hline : r.line total 0 = r.start.velocity := by simp [Ramp.line]
  exact Nat.le_antisymm (h.velocityOn_le (Nat.zero_le _) hline.le)
    (h.le_velocityOn (Nat.zero_le _) r.start.velocity_le hline.ge)

end Sloped

end Directions

/-! ## Staircases -/

section Staircase

variable {r : Ramp} {total : Nat}

/-- The steps are some of those at the times before the end. -/
theorem drawn_sublist (r : Ramp) (total : Nat) :
    (r.drawn total).Sublist
      (((List.range (r.rise.natAbs + 1)).filter (r.runs total)).map (r.stepOn total)) := by
  unfold drawn
  split
  · have hmap : ((List.range (r.rise.natAbs + 1)).filter (r.runs total)).map (r.stepOn total) =
      ((List.iterate (· + r.interval total) (r.time total 0) (r.rise.natAbs + 1)).filter
        (RampNumber.less · (RampNumber.ofInt total))).map
          (stepAt (RampNumber.ofInt r.start.velocity) (r.slope total)) := by
      rw [← List.range_map_iterate, List.filter_map, List.map_map]
      rfl
    rw [hmap]
    exact stepsFrom_sublist _
  · exact List.nil_sublist _

theorem isChain_drawn (r : Ramp) (total : Nat) :
    (r.drawn total).IsChain fun step step' => step.2 ≠ step'.2 := by
  unfold drawn
  split
  · exact (List.isChain_map Prod.snd).1 (@isChain_stepsFrom _ _ _ _ _ _ _ none _)
  · exact .nil

/-- What holds of the steps at any two times holds of the steps that are listed. -/
theorem pairwise_drawn {R : Nat × Nat → Nat × Nat → Prop}
    (hR : ∀ i j, i < j → j ≤ 128 → r.runs total i → r.runs total j →
      R (r.stepOn total i) (r.stepOn total j)) :
    (r.drawn total).Pairwise R := by
  refine .sublist (r.drawn_sublist total) (List.pairwise_map.2 ?_)
  refine (List.pairwise_lt_range.filter _).imp_of_mem fun hi hj hij => ?_
  obtain ⟨-, hruns⟩ := List.mem_filter.1 hi
  obtain ⟨hrange, hruns'⟩ := List.mem_filter.1 hj
  have hk := r.natAbs_rise_le
  exact hR _ _ hij ((List.mem_range.1 hrange).le.trans (by omega)) hruns hruns'

/-- A step that is listed is one at a time before the end. -/
theorem exists_of_mem_drawn {step : Nat × Nat} (h : step ∈ r.drawn total) :
    ∃ k ≤ 128, r.runs total k ∧ r.stepOn total k = step := by
  obtain ⟨k, hk, rfl⟩ := List.mem_map.1 ((r.drawn_sublist total).subset h)
  obtain ⟨hrange, hruns⟩ := List.mem_filter.1 hk
  have hle := r.natAbs_rise_le
  exact ⟨k, (List.mem_range.1 hrange).le.trans (by omega), hruns, rfl⟩

/-- There are no steps before the last one, or the ramp is drawn. -/
theorem drawn_eq_nil_or_sloped (r : Ramp) (hlt : total < 2 ^ 53) :
    r.drawn total = [] ∨ Sloped r total := by
  unfold drawn
  split
  · next hsloped => exact .inr ⟨hsloped.1, hsloped.2, hlt⟩
  · exact .inl rfl

/-- The steps at two times do not fall back, in ticks or in velocity. -/
theorem Sloped.stepOn_toward {i j : Nat} (h : Sloped r total)
    (hr : r.kind.Toward r.start.velocity r.stop.velocity) (hij : i < j) (hj : j ≤ 128)
    (hruns : r.runs total i) (hruns' : r.runs total j) :
    (r.stepOn total i).1 ≤ (r.stepOn total j).1 ∧
      r.kind.Toward (r.stepOn total i).2 (r.stepOn total j).2 := by
  have htick : r.tick total i ≤ r.tick total j := h.tick_le_tick hij hj
  refine ⟨htick, ?_⟩
  obtain hlt | heq := htick.lt_or_eq
  · exact h.toward_velocityOn hr (h.tick_le (hij.le.trans hj) hruns) (h.tick_le hj hruns')
      (h.quarter_le hij hj hlt)
  · unfold stepOn
    rw [heq]
    exact .refl _ _

/-- A step that is listed does not lie after the end, and its velocity lies between the start and
the end. -/
theorem le_of_mem_drawn {step : Nat × Nat} (hr : r.kind.Toward r.start.velocity r.stop.velocity)
    (hlt : total < 2 ^ 53) (h : step ∈ r.drawn total) :
    step.1 ≤ total ∧ r.kind.Toward r.start.velocity step.2 ∧
      r.kind.Toward step.2 r.stop.velocity := by
  obtain hnil | hs := r.drawn_eq_nil_or_sloped hlt
  · rw [hnil] at h
    cases h
  · obtain ⟨k, hk, hruns, rfl⟩ := exists_of_mem_drawn h
    have htick := hs.tick_le hk hruns
    exact ⟨htick, hs.between_velocityOn hr htick⟩

theorem pairwise_drawn_toward (hr : r.kind.Toward r.start.velocity r.stop.velocity)
    (hlt : total < 2 ^ 53) :
    (r.drawn total).Pairwise fun step step' => step.1 ≤ step'.1 ∧ r.kind.Toward step.2 step'.2 := by
  obtain hnil | hs := r.drawn_eq_nil_or_sloped hlt
  · rw [hnil]
    exact .nil
  · exact pairwise_drawn fun i j hij hj => hs.stepOn_toward hr hij hj

theorem head?_drawn (hs : Sloped r total) : (r.drawn total).head? = some (0, r.start.velocity) := by
  unfold drawn
  rw [if_pos ⟨hs.rise_ne, hs.pos⟩, head?_stepsFrom hs.runs_zero]
  show some (r.tick total 0, r.velocityOn total (r.tick total 0)) = _
  rw [Sloped.tick_zero, hs.velocityOn_zero]

/-- What the steps of a ramp over `total` ticks come to. -/
structure Staircase (r : Ramp) (total : Nat) (steps : List (Nat × Nat)) : Prop where
  /-- The ticks do not fall. -/
  ticks : steps.Pairwise fun step step' => step.1 ≤ step'.1
  tick_le : ∀ step ∈ steps, step.1 ≤ total
  /-- The velocities do not move against the direction. -/
  velocities : steps.Pairwise fun step step' => r.kind.Toward step.2 step'.2
  between : ∀ step ∈ steps,
    r.kind.Toward r.start.velocity step.2 ∧ r.kind.Toward step.2 r.stop.velocity
  /-- Velocities that follow on one another differ, but for the last two. -/
  changes : steps.dropLast.IsChain fun step step' => step.2 ≠ step'.2
  head : 0 < total → r.start ≠ r.stop → steps.head? = some (0, r.start.velocity)
  last : steps.getLast? = some (total, r.stop.velocity)

/-- The steps of a ramp rise or fall like a staircase, from the start to the end. -/
theorem staircase_steps (hr : r.kind.Toward r.start.velocity r.stop.velocity)
    (hlt : total < 2 ^ 53) : Staircase r total (r.steps total) := by
  have hdrawn := pairwise_drawn_toward hr hlt
  have hle := fun step => @le_of_mem_drawn r total step hr hlt
  rw [steps_eq]
  constructor
  case ticks =>
    refine List.pairwise_append.2 ⟨hdrawn.imp And.left, List.pairwise_singleton _ _, ?_⟩
    intro step hstep last hlast
    obtain rfl := List.mem_singleton.1 hlast
    exact (hle step hstep).1
  case tick_le =>
    refine List.forall_mem_append.2 ⟨fun step hstep => (hle step hstep).1, ?_⟩
    exact List.forall_mem_singleton.2 le_rfl
  case velocities =>
    refine List.pairwise_append.2 ⟨hdrawn.imp And.right, List.pairwise_singleton _ _, ?_⟩
    intro step hstep last hlast
    obtain rfl := List.mem_singleton.1 hlast
    exact (hle step hstep).2.2
  case between =>
    refine List.forall_mem_append.2 ⟨fun step hstep => (hle step hstep).2, ?_⟩
    exact List.forall_mem_singleton.2 ⟨hr, .refl _ _⟩
  case changes =>
    rw [List.dropLast_concat]
    exact r.isChain_drawn total
  case head =>
    intro hpos hne
    rw [List.head?_append, head?_drawn ⟨rise_ne_zero hne, hpos, hlt⟩]
    rfl
  case last => exact List.getLast?_concat ..

/-- The loop of a ramp over `total` ticks ends, and has then listed `steps`. A ramp that does not
rise and one over no ticks have no loop. -/
def LoopEnds (r : Ramp) (total : Nat) (steps : List (Nat × Nat)) : Prop :=
  if r.rise ≠ 0 ∧ 0 < total then
    Draws (RampNumber.ofInt r.start.velocity) (r.slope total) (r.interval total)
      (RampNumber.ofInt total) (RampNumber.ofInt 0) none steps
  else steps = []

theorem loopEnds_drawn (r : Ramp) (hlt : total < 2 ^ 53) : r.LoopEnds total (r.drawn total) := by
  unfold LoopEnds drawn
  split
  · next hsloped => exact draws_stepsFrom (Sloped.runs_end ⟨hsloped.1, hsloped.2, hlt⟩)
  · rfl

end Staircase

end Ramp

end MidiScore
