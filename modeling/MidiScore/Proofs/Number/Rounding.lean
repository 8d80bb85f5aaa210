import Mathlib

/-!
# Rounding to binary floating point

An operation on floating-point numbers finds a mantissa with two residual bits, which say where the
exact result lies, shifts it to the exponent that its size asks for, and rounds it. What comes out
is a multiple of a power of two, no further from the exact result than half of it (`Rounded`). So
the error is small against any bound of the exact result (`Rounded.error_le`), and a result that is
a multiple of the power of two is exact (`Rounded.eq_of_int`).
-/

namespace MidiScore

open Float.Model Float.Model.UnpackedFloat

/-- The least exponent of a finite number. -/
def leastExponent : Int := -1074

/-- The number `r` is a multiple of a power of two that is nearest to `v`. The power is the least
one, or so small that `v` has 53 bits before it. -/
def Rounded (v r : ℚ) : Prop :=
  ∃ (t : ℤ) (n : ℤ), (t = leastExponent ∨ (2 : ℚ) ^ (t + 52) ≤ |v|) ∧ r = n * 2 ^ t ∧
    |r - v| ≤ 2 ^ t / 2

namespace Rounded

variable {v r : ℚ}

theorem neg (h : Rounded v r) : Rounded (-v) (-r) := by
  obtain ⟨t, n, ht, rfl, herror⟩ := h
  refine ⟨t, -n, by rwa [abs_neg], by push_cast; ring, ?_⟩
  rw [← abs_neg]
  ring_nf at herror ⊢
  exact herror

/-- The error is small against a bound of the exact result that is not too small. -/
theorem error_le (h : Rounded v r) {b : ℚ} (hb : (2 : ℚ) ^ (-200 : ℤ) ≤ b) (hv : |v| ≤ b) :
    |r - v| ≤ b / 2 ^ 53 := by
  obtain ⟨t, n, ht, -, herror⟩ := h
  have hunit : (2 : ℚ) ^ (t + 52) ≤ b := by
    rcases ht with rfl | ht
    · refine le_trans (zpow_le_zpow_right₀ (by norm_num) ?_) hb
      decide
    · exact ht.trans hv
  rw [zpow_add₀ (by norm_num)] at hunit
  rw [le_div_iff₀ (by positivity)]
  norm_num at hunit ⊢
  linarith

/-- What is a multiple of the unit is not changed. -/
theorem eq_of_int (h : Rounded v r) {j : ℤ} (hv : v = j) (hj : |j| < 2 ^ 53) : r = v := by
  obtain ⟨t, n, ht, rfl, herror⟩ := h
  have ht : t ≤ 0 := by
    rcases ht with rfl | ht
    · decide
    · by_contra hpos
      have hbig : (2 : ℚ) ^ (53 : ℤ) ≤ 2 ^ (t + 52) :=
        zpow_le_zpow_right₀ (by norm_num) (by omega)
      have hsmall : |v| < 2 ^ 53 := by
        rw [hv]
        exact_mod_cast hj
      have hle := hbig.trans ht
      norm_num at hle hsmall
      linarith
  -- the exact result is a multiple of the unit as well, and multiples lie a unit apart
  have hpow : (0 : ℚ) < 2 ^ t := by positivity
  have hmul : v = (j * 2 ^ (-t).toNat : ℤ) * 2 ^ t := by
    rw [hv]
    push_cast
    rw [mul_assoc, ← zpow_natCast, ← zpow_add₀ (by norm_num), Int.toNat_of_nonneg (by omega)]
    simp
  rw [hmul, ← sub_mul, abs_mul, abs_of_pos hpow] at herror
  have hclose : |((n - j * 2 ^ (-t).toNat : ℤ) : ℚ)| ≤ 1 / 2 := by
    push_cast at herror ⊢
    nlinarith
  have hzero : |n - j * 2 ^ (-t).toNat| < 1 := by
    have : (|n - j * 2 ^ (-t).toNat| : ℚ) < 1 := by
      push_cast at hclose
      linarith
    exact_mod_cast this
  rw [hmul, show n = j * 2 ^ (-t).toNat by linarith [Int.abs_lt_one_iff.1 hzero]]

end Rounded

/-! ## The residual bits -/

/-- The number lies where the residual bits say: at the mantissa, in the first half of the unit
above it, in its middle, or in its second half. -/
def Lies (em : ExtendedMantissa) (y : ℚ) : Prop :=
  match em.roundBit, em.stickyBit with
  | false, false => y = em.mantissa
  | false, true => em.mantissa < y ∧ y < em.mantissa + 1 / 2
  | true, false => y = em.mantissa + 1 / 2
  | true, true => em.mantissa + 1 / 2 < y ∧ y < em.mantissa + 1

namespace Lies

variable {em : ExtendedMantissa} {y : ℚ}

theorem exact (m : Nat) : Lies (.ofMantissaAndAccuracy m .exact) m := rfl

theorem le (h : Lies em y) : (em.mantissa : ℚ) ≤ y := by
  obtain ⟨m, round, sticky⟩ := em
  cases round <;> cases sticky <;> simp only [Lies] at h ⊢ <;> linarith

theorem lt (h : Lies em y) : y < em.mantissa + 1 := by
  obtain ⟨m, round, sticky⟩ := em
  cases round <;> cases sticky <;> simp only [Lies] at h ⊢ <;> linarith

/-- Rounding goes to a nearest natural number. -/
theorem abs_roundedMantissa_sub_le (h : Lies em y) : |(em.roundedMantissa : ℚ) - y| ≤ 1 / 2 := by
  obtain ⟨m, round, sticky⟩ := em
  have heven : ((m % 2 : Nat) : ℚ) = 0 ∨ ((m % 2 : Nat) : ℚ) = 1 := by
    exact_mod_cast Nat.mod_two_eq_zero_or_one m
  rw [abs_le]
  cases round <;> cases sticky <;>
    simp only [Lies, ExtendedMantissa.roundedMantissa, ExtendedMantissa.accuracy,
      Accuracy.roundToNearestEven] at h ⊢ <;>
    push_cast <;> rcases heven with heven | heven <;> constructor <;> linarith

theorem shiftRightOne (h : Lies em y) : Lies em.shiftRightOne (y / 2) := by
  obtain ⟨m, round, sticky⟩ := em
  have hm : (m : ℚ) = 2 * (m / 2 : Nat) + (m % 2 : Nat) := by
    exact_mod_cast (Nat.div_add_mod m 2).symm
  rcases Nat.mod_two_eq_zero_or_one m with heven | heven <;> rw [heven] at hm <;>
    cases round <;> cases sticky <;>
    simp only [Lies, ExtendedMantissa.shiftRightOne, heven, bne_self_eq_false, Nat.reduceBNe,
      Bool.or_false, Bool.or_true] at h ⊢ <;>
    push_cast at hm <;> split_ands <;> linarith

theorem shiftRight (h : Lies em y) (n : Nat) : Lies (em >>> n) (y / 2 ^ n) := by
  show Lies (n.repeat ExtendedMantissa.shiftRightOne em) (y / 2 ^ n)
  induction n with
  | zero => simpa [Nat.repeat] using h
  | succ n ih =>
    rw [pow_succ, ← div_div]
    exact ih.shiftRightOne

end Lies

/-! ## Canonical numbers -/

/-- The factor that a sign stands for. -/
def factor : Sign → ℚ
  | .negative => -1
  | .positive => 1

theorem cast_apply (s : Sign) (n : ℤ) : (s.apply n : ℚ) = factor s * n := by
  cases s <;> simp [Sign.apply, factor]

theorem abs_factor_mul (s : Sign) (v : ℚ) : |factor s * v| = |v| := by
  cases s <;> simp [factor]

/-- The number has the value `v`. If it is finite its mantissa takes as many bits as it can. -/
inductive Denotes : UnpackedFloat → ℚ → Prop where
  | zero (s : Sign) : Denotes (.zero s) 0
  | finite (s : Sign) {m : Nat} {e : Int} (hm : 0 < m) (lt : m < 2 ^ 53) (least : leastExponent ≤ e)
      (full : e = leastExponent ∨ 2 ^ 52 ≤ m) :
      Denotes (.finite s m e hm) (factor s * (m * 2 ^ e))

/-- The exponent to which a number is shifted before it is rounded. -/
def unitExponent (m : Nat) (e : Int) : Int :=
  max (m.log2 + e - 52) leastExponent

theorem targetExponent_eq (n : Int) :
    Format.binary64.targetExponent n = max (n - 53) leastExponent := rfl

theorem targetExponent_totalExponent (m : Nat) (e : Int) :
    Format.binary64.targetExponent (totalExponent m e) = unitExponent m e := by
  rw [targetExponent_eq]
  unfold unitExponent totalExponent
  congr 1
  omega

theorem shiftToTargetExponent_eq (m : Nat) (e : Int) (acc : Accuracy) :
    shiftToTargetExponent .binary64 m e acc =
      (ExtendedMantissa.ofMantissaAndAccuracy m acc >>> (unitExponent m e - e).toNat,
        e + (unitExponent m e - e).toNat) := by
  unfold shiftToTargetExponent
  rw [targetExponent_totalExponent]
  rfl

/-- The number with a mantissa and an exponent, a signed zero if the mantissa is zero. -/
def ofParts (s : Sign) (m : Nat) (e : Int) : UnpackedFloat :=
  if h : m = 0 then .zero s else .finite s m e (Nat.pos_of_ne_zero h)

theorem denotes_ofParts (s : Sign) {m : Nat} {e : Int} (lt : m < 2 ^ 53) (least : leastExponent ≤ e)
    (full : e = leastExponent ∨ 2 ^ 52 ≤ m) : Denotes (ofParts s m e) (factor s * (m * 2 ^ e)) := by
  unfold ofParts
  split
  · next h =>
    subst h
    simpa using Denotes.zero s
  · exact .finite s _ lt least full

/-- The mantissa is rounded once. The second shift makes room for a bit that rounding has added. -/
theorem roundWithAccuracy_eq (s : Sign) (m : Nat) (e : Int) (acc : Accuracy) :
    roundWithAccuracy .binary64 s m e acc =
      let first := shiftToTargetExponent .binary64 m e acc
      let final := shiftToTargetExponent .binary64 first.1.roundedMantissa first.2 .exact
      ofParts s final.1.mantissa final.2 := rfl

/-- A rounded mantissa of at most 53 bits stays as it is, and one that was rounded up to a further
bit is halved. -/
theorem denotes_carry (s : Sign) {m : Nat} {e : Int} (hm : m ≤ 2 ^ 53) (least : leastExponent ≤ e)
    (full : e = leastExponent ∨ 2 ^ 52 ≤ m) :
    Denotes
      (ofParts s (shiftToTargetExponent .binary64 m e .exact).1.mantissa
        (shiftToTargetExponent .binary64 m e .exact).2)
      (factor s * (m * 2 ^ e)) := by
  rw [shiftToTargetExponent_eq]
  rcases Nat.lt_or_eq_of_le hm with hlt | rfl
  · have hlog : m.log2 ≤ 52 := by
      rcases Nat.eq_zero_or_pos m with rfl | hpos
      · decide
      · exact Nat.lt_succ_iff.1 ((Nat.log2_lt hpos.ne').2 hlt)
    have hstay : unitExponent m e - e ≤ 0 := by
      unfold unitExponent
      omega
    rw [Int.toNat_of_nonpos hstay, Int.natCast_zero, Int.add_zero]
    exact denotes_ofParts s hlt least full
  · have hcarry : unitExponent (2 ^ 53) e - e = 1 := by
      unfold unitExponent
      rw [Nat.log2_two_pow]
      omega
    have hvalue : factor s * ((2 ^ 53 : Nat) * 2 ^ e) =
        factor s * ((2 ^ 52 : Nat) * (2 : ℚ) ^ (e + 1)) := by
      rw [zpow_add₀ (by norm_num)]
      push_cast
      ring
    rw [hcarry, hvalue]
    exact denotes_ofParts s (m := 2 ^ 52) (by decide) (by omega) (.inr (Nat.le_refl _))

theorem mantissa_ofMantissaAndAccuracy (m : Nat) (acc : Accuracy) :
    (ExtendedMantissa.ofMantissaAndAccuracy m acc).mantissa = m := by
  rcases acc with _ | _ | _ | _ <;> rfl

/-- After the first shift the exact result has 53 bits before the unit, or fewer if the exponent is
the least one. -/
theorem shifted_bounds {m k : Nat} {e : Int} {y : ℚ} (hk : e + k = unitExponent m e)
    (hpos : 0 < m ∨ e ≤ leastExponent) (hle : m ≤ y) (hlt : y < m + 1) :
    y / 2 ^ k < 2 ^ 53 ∧ (unitExponent m e = leastExponent ∨ (2 : ℚ) ^ 52 ≤ y / 2 ^ k) := by
  unfold unitExponent at hk ⊢
  rw [div_lt_iff₀ (by positivity), le_div_iff₀ (by positivity), ← pow_add, ← pow_add]
  constructor
  · have hlog : m + 1 ≤ 2 ^ (53 + k) :=
      Nat.le_trans Nat.lt_log2_self (Nat.pow_le_pow_right (by decide) (by omega))
    exact hlt.trans_le (by exact_mod_cast hlog)
  · by_cases hleast : max (m.log2 + e - 52) leastExponent = leastExponent
    · exact .inl hleast
    · have hm : m ≠ 0 := by
        rintro rfl
        rw [Nat.log2_zero] at hleast
        omega
      have hlog : 2 ^ (52 + k) ≤ m := by
        rw [show 52 + k = m.log2 by omega]
        exact Nat.log2_self_le hm
      exact .inr (le_trans (by exact_mod_cast hlog) hle)

/-- A mantissa with residual bits, at an exponent that is not too great, is rounded to a canonical
number. -/
theorem denotes_roundWithAccuracy (s : Sign) {m : Nat} {e : Int} {acc : Accuracy} {y : ℚ}
    (h : Lies (.ofMantissaAndAccuracy m acc) y) (hpos : 0 < m ∨ e ≤ leastExponent)
    (he : e ≤ unitExponent m e) :
    ∃ r, Denotes (roundWithAccuracy .binary64 s m e acc) r ∧
      Rounded (factor s * (y * 2 ^ e)) r := by
  obtain ⟨k, hk⟩ := Int.le.dest he
  have hbits : (unitExponent m e - e).toNat = k := by omega
  have hround := (h.shiftRight k).abs_roundedMantissa_sub_le
  have hle := h.le
  have hlt := h.lt
  rw [mantissa_ofMantissaAndAccuracy] at hle hlt
  obtain ⟨hbelow, hfull⟩ := shifted_bounds hk hpos hle hlt
  rw [roundWithAccuracy_eq, shiftToTargetExponent_eq, hbits, hk]
  dsimp only
  generalize (ExtendedMantissa.ofMantissaAndAccuracy m acc >>> k).roundedMantissa = n at hround ⊢
  have hvalue : y * 2 ^ e = y / 2 ^ k * 2 ^ unitExponent m e := by
    rw [← hk, zpow_add₀ (by norm_num), zpow_natCast]
    field_simp
  rw [abs_le] at hround
  have hn : n ≤ 2 ^ 53 := by
    have : (n : ℚ) < (2 ^ 53 + 1 : Nat) := by
      push_cast
      linarith
    exact Nat.lt_succ_iff.1 (by exact_mod_cast this)
  have hunit : unitExponent m e = leastExponent ∨ 2 ^ 52 ≤ n := by
    refine hfull.imp_right fun hfull => ?_
    have : ((2 ^ 52 : Nat) : ℚ) < (n + 1 : Nat) := by
      push_cast
      linarith
    exact Nat.lt_succ_iff.1 (by exact_mod_cast this)
  refine ⟨_, denotes_carry s hn (le_max_right _ _) hunit, unitExponent m e, s.apply n, ?_, ?_, ?_⟩
  · refine hfull.imp_right fun hfull => ?_
    rw [abs_factor_mul, hvalue, abs_of_nonneg (by positivity), zpow_add₀ (by norm_num), mul_comm]
    exact mul_le_mul_of_nonneg_right hfull (by positivity)
  · rw [cast_apply]
    push_cast
    ring
  · rw [hvalue, ← mul_sub, abs_factor_mul, ← sub_mul, abs_mul,
      abs_of_pos (a := 2 ^ _) (by positivity)]
    refine (mul_le_mul_of_nonneg_right (abs_le.2 hround) (by positivity)).trans_eq ?_
    ring

end MidiScore
