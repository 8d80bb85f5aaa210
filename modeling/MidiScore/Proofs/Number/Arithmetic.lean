import Mathlib.Tactic.FieldSimp
import MidiScore.Proofs.Number.Rounding

/-!
# Arithmetic of canonical numbers

The sum, the product and the quotient of numbers that denote rational numbers denote the rounded
results (`Denotes.add`, `Denotes.mul`, `Denotes.div`), and numbers that are not negative are
compared by what they denote (`Denotes.lt_iff`). Each operation comes down to
`denotes_roundWithAccuracy`: what has to be shown is that its exponent is not too great for the
rounding, and for a quotient that the remainder tells where the exact result lies.
-/

namespace MidiScore

open Float.Model Float.Model.UnpackedFloat

theorem Rounded.zero : Rounded 0 0 :=
  ⟨leastExponent, 0, .inl rfl, by simp, by simp; positivity⟩

theorem factor_mul (s s' : Sign) : factor (s * s') = factor s * factor s' := by
  cases s <;> cases s' <;> simp [factor]

theorem factor_neg (s : Sign) : factor (-s) = -factor s := by
  cases s <;> simp [factor]

theorem factor_div (s s' : Sign) : factor (s / s') = factor s / factor s' := by
  cases s <;> cases s' <;> simp [factor] <;> rfl

namespace Denotes

variable {a b : UnpackedFloat} {x y : ℚ}

theorem value_zero {s : Sign} (h : Denotes (.zero s) x) : x = 0 := by
  cases h
  rfl

theorem value_finite {s : Sign} {m : Nat} {e : Int} {hm : 0 < m}
    (h : Denotes (.finite s m e hm) x) : x = factor s * (m * 2 ^ e) := by
  cases h
  rfl

theorem rounded (ha : Denotes a x) : Rounded x x := by
  cases ha with
  | zero => exact .zero
  | @finite s m e hm lt least full =>
    refine ⟨e, s.apply m, full.imp_right fun hfull => ?_, ?_, by simp; positivity⟩
    · rw [abs_factor_mul, abs_of_nonneg (by positivity), zpow_add₀ (by norm_num), mul_comm]
      exact mul_le_mul_of_nonneg_right (by exact_mod_cast hfull) (by positivity)
    · rw [cast_apply]
      push_cast
      ring

theorem neg (ha : Denotes a x) : Denotes a.neg (-x) := by
  cases ha with
  | zero s =>
    rw [neg_zero]
    exact .zero _
  | finite s hm lt least full =>
    rw [← neg_mul, ← factor_neg]
    exact .finite _ hm lt least full

/-- A product has no fewer bits than the canonical numbers that are multiplied. -/
theorem le_unitExponent_mul {m m' : Nat} {e e' : Int} (hm : 0 < m) (hm' : 0 < m')
    (full : e = leastExponent ∨ 2 ^ 52 ≤ m) (full' : e' = leastExponent ∨ 2 ^ 52 ≤ m') :
    e + e' ≤ unitExponent (m * m') (e + e') := by
  have hpos : 0 < m * m' := Nat.mul_pos hm hm'
  have hlog : 2 ^ 52 ≤ m * m' → 52 ≤ (m * m').log2 := (Nat.le_log2 hpos.ne').2
  unfold unitExponent
  rcases full with rfl | hfull
  · rcases full' with rfl | hfull'
    · unfold leastExponent
      omega
    · have := hlog (hfull'.trans (Nat.le_mul_of_pos_left m' hm))
      omega
  · have := hlog (hfull.trans (Nat.le_mul_of_pos_right m hm'))
    omega

theorem mul (ha : Denotes a x) (hb : Denotes b y) :
    ∃ r, Denotes (UnpackedFloat.mul .binary64 a b) r ∧ Rounded (x * y) r := by
  cases ha with
  | zero s =>
    rw [zero_mul]
    cases hb with
    | zero s' => exact ⟨0, .zero _, .zero⟩
    | finite s' => exact ⟨0, .zero _, .zero⟩
  | @finite s m e hm _ _ full =>
    cases hb with
    | zero s' =>
      rw [mul_zero]
      exact ⟨0, .zero _, .zero⟩
    | @finite s' m' e' hm' _ _ full' =>
      have hvalue : factor s * (m * 2 ^ e) * (factor s' * (m' * (2 : ℚ) ^ e')) =
          factor (s * s') * ((m * m' : Nat) * 2 ^ (e + e')) := by
        rw [factor_mul, zpow_add₀ (by norm_num)]
        push_cast
        ring
      rw [hvalue]
      exact denotes_roundWithAccuracy (s * s') (.exact _) (.inl (Nat.mul_pos hm hm'))
        (le_unitExponent_mul hm hm' full full')

theorem decreaseExponent_add (m k : Nat) (t : Int) :
    decreaseExponent m (t + k) t = (m * 2 ^ k, t) := by
  unfold decreaseExponent
  dsimp only
  rw [add_sub_cancel_left, Int.toNat_natCast, Nat.shiftLeft_eq, Int.add_sub_cancel]

/-- Decreasing an exponent keeps the value. -/
theorem decreaseExponent_value {m : Nat} {e t : Int} (ht : t ≤ e) :
    ((decreaseExponent m e t).1 : ℚ) * 2 ^ t = m * 2 ^ e := by
  obtain ⟨k, rfl⟩ := Int.le.dest ht
  rw [decreaseExponent_add, zpow_add₀ (by norm_num), zpow_natCast]
  push_cast
  ring

theorem unitExponent_mul_two_pow {m : Nat} (hm : m ≠ 0) (k : Nat) (t : Int) :
    unitExponent (m * 2 ^ k) t = unitExponent m (t + k) := by
  have hlog : (m * 2 ^ k).log2 = m.log2 + k := by
    induction k with
    | zero => rw [pow_zero, Nat.mul_one, Nat.add_zero]
    | succ k ih =>
      rw [pow_succ, ← Nat.mul_assoc, Nat.mul_comm, Nat.log2_two_mul (by positivity), ih]
      rfl
  unfold unitExponent
  rw [hlog]
  congr 1
  omega

/-- A number with any mantissa and exponent is rounded to a canonical one. -/
theorem round (s : Sign) {m : Nat} (hm : 0 < m) (e : Int) :
    ∃ r, Denotes (UnpackedFloat.round .binary64 s m e) r ∧ Rounded (factor s * (m * 2 ^ e)) r := by
  unfold UnpackedFloat.round
  rw [targetExponent_totalExponent]
  dsimp only
  by_cases he : e ≤ unitExponent m e
  · have hsame : decreaseExponent m e (unitExponent m e) = (m, e) := by
      unfold decreaseExponent
      rw [Int.toNat_of_nonpos (by omega)]
      simp
    rw [hsame]
    exact denotes_roundWithAccuracy s (.exact m) (.inl hm) he
  · obtain ⟨k, hk⟩ := Int.le.dest (Int.le_of_lt (Int.not_le.1 he))
    have hdecrease := decreaseExponent_add m k (unitExponent m e)
    have hvalue := decreaseExponent_value (m := m) (Int.le_of_lt (Int.not_le.1 he))
    rw [hk] at hdecrease
    rw [hdecrease] at hvalue ⊢
    rw [← hvalue]
    refine denotes_roundWithAccuracy s (.exact _) (.inl (by positivity)) ?_
    rw [unitExponent_mul_two_pow hm.ne', hk]

theorem normalize (n : ℤ) (e : Int) (zeroSign : Sign) :
    ∃ r, Denotes (UnpackedFloat.normalize .binary64 n e zeroSign) r ∧ Rounded (n * 2 ^ e) r := by
  unfold UnpackedFloat.normalize
  rcases lt_trichotomy n 0 with hn | rfl | hn
  · rw [show compare n 0 = .lt from Int.compare_eq_lt.2 hn]
    have hvalue : (n : ℚ) = factor .negative * ((-n).toNat : Nat) := by
      rw [← Int.cast_natCast, Int.toNat_of_nonneg (by omega)]
      simp [factor]
    rw [hvalue, mul_assoc]
    exact round .negative (by omega) e
  · rw [show compare (0 : ℤ) 0 = .eq from rfl, Int.cast_zero, zero_mul]
    exact ⟨0, .zero _, .zero⟩
  · rw [show compare n 0 = .gt from Int.compare_eq_gt.2 hn]
    have hvalue : (n : ℚ) = factor .positive * (n.toNat : Nat) := by
      rw [← Int.cast_natCast, Int.toNat_of_nonneg (by omega)]
      simp [factor]
    rw [hvalue, mul_assoc]
    exact round .positive (by omega) e

theorem add (ha : Denotes a x) (hb : Denotes b y) :
    ∃ r, Denotes (UnpackedFloat.add .binary64 a b) r ∧ Rounded (x + y) r := by
  cases ha with
  | zero s =>
    rw [zero_add]
    cases hb with
    | zero s' =>
      refine ⟨0, ?_, .zero⟩
      show Denotes (if s == s' then .zero s else .zero .positive) 0
      split <;> exact .zero _
    | finite s' hm lt least full =>
      have hb := finite s' hm lt least full
      exact ⟨_, hb, hb.rounded⟩
  | @finite s m e hm lt least full =>
    cases hb with
    | zero s' =>
      rw [add_zero]
      have ha := finite s hm lt least full
      exact ⟨_, ha, ha.rounded⟩
    | @finite s' m' e' hm' _ _ full' =>
      have h := decreaseExponent_value (m := m) (min_le_left e e')
      have h' := decreaseExponent_value (m := m') (min_le_right e e')
      have hvalue : factor s * (m * 2 ^ e) + factor s' * (m' * (2 : ℚ) ^ e') =
          (s.apply (decreaseExponent m e (min e e')).1 +
            s'.apply (decreaseExponent m' e' (min e e')).1 : ℤ) * 2 ^ min e e' := by
        push_cast
        rw [cast_apply, cast_apply, ← h, ← h']
        push_cast
        ring
      rw [hvalue]
      exact normalize _ _ _

/-- The remainder of a division says where the exact quotient lies. -/
theorem lies_quotient (n : Nat) {d : Nat} (hd : 0 < d) :
    Lies (.ofMantissaAndAccuracy (n / d) (accuracyOfFraction (n % d) d)) (n / d) := by
  have hdpos : (0 : ℚ) < d := by exact_mod_cast hd
  have hn : (n : ℚ) / d = (n / d : Nat) + (n % d : Nat) / d := by
    rw [eq_comm, ← eq_sub_iff_add_eq', div_eq_iff hdpos.ne', sub_mul, div_mul_cancel₀ _ hdpos.ne']
    have := Nat.div_add_mod n d
    rw [eq_sub_iff_add_eq']
    exact_mod_cast (Nat.mul_comm .. ▸ this)
  have hlt : ((n % d : Nat) : ℚ) / d < 1 := by
    rw [div_lt_one hdpos]
    exact_mod_cast Nat.mod_lt n hd
  rw [hn]
  unfold accuracyOfFraction
  split
  · next hzero => simp [hzero, Lies, ExtendedMantissa.ofMantissaAndAccuracy]
  · next hrem =>
    have hpos : (0 : ℚ) < (n % d : Nat) / d := by positivity
    rcases Nat.lt_trichotomy (2 * (n % d)) d with hhalf | hhalf | hhalf
    · rw [Nat.compare_eq_lt.2 hhalf]
      have : ((n % d : Nat) : ℚ) / d < 1 / 2 := by
        rw [div_lt_div_iff₀ hdpos two_pos, one_mul, mul_comm]
        exact_mod_cast hhalf
      simp only [Lies, ExtendedMantissa.ofMantissaAndAccuracy]
      constructor <;> linarith
    · rw [Nat.compare_eq_eq.2 hhalf]
      have : ((n % d : Nat) : ℚ) / d = 1 / 2 := by
        rw [div_eq_div_iff hdpos.ne' two_ne_zero, one_mul, mul_comm]
        exact_mod_cast hhalf
      simp only [Lies, ExtendedMantissa.ofMantissaAndAccuracy]
      linarith
    · rw [Nat.compare_eq_gt.2 hhalf]
      have : 1 / 2 < ((n % d : Nat) : ℚ) / d := by
        rw [div_lt_div_iff₀ two_pos hdpos, one_mul, mul_comm]
        exact_mod_cast hhalf
      simp only [Lies, ExtendedMantissa.ofMantissaAndAccuracy]
      constructor <;> linarith

/-- The dividend is moved to an exponent that gives the quotient 53 bits, or to the least one. -/
theorem exists_divCore_eq {m m' : Nat} (e e' : Int) (hm : 0 < m) (hm' : 0 < m') (lt : m < 2 ^ 53) :
    ∃ (k : Nat) (t : Int), t + k = e - e' ∧
      divCore .binary64 m e m' e' =
        (m * 2 ^ k / m', t, accuracyOfFraction (m * 2 ^ k % m') m') ∧
      (0 < m * 2 ^ k / m' ∨ t ≤ leastExponent) ∧ t ≤ unitExponent (m * 2 ^ k / m') t := by
  let t := min (e - e') (Format.binary64.targetExponent (totalExponent m e - totalExponent m' e'))
  obtain ⟨k, hk⟩ : ∃ k : Nat, t + k = e - e' := Int.le.dest (min_le_left _ _)
  refine ⟨k, t, hk, ?_, ?_⟩
  · have hshift : m <<< (e - e' - t).toNat = m * 2 ^ k := by
      rw [show (e - e' - t).toNat = k by omega, Nat.shiftLeft_eq]
    rw [← hshift]
    rfl
  · have ht : t = min (e - e') (max (m.log2 - m'.log2 + (e - e') - 53) leastExponent) := by
      unfold t
      rw [targetExponent_eq]
      unfold totalExponent
      congr 2
      omega
    clear_value t
    by_cases hleast : t ≤ leastExponent
    · exact ⟨.inr hleast, hleast.trans (le_max_right _ _)⟩
    · have hlog : m.log2 < 53 := (Nat.log2_lt hm.ne').2 lt
      have hbits : m.log2 + k = 52 + (m'.log2 + 1) := by omega
      have hquotient : 2 ^ 52 ≤ m * 2 ^ k / m' := by
        rw [Nat.le_div_iff_mul_le hm']
        calc 2 ^ 52 * m' ≤ 2 ^ 52 * 2 ^ (m'.log2 + 1) :=
              Nat.mul_le_mul_left _ (Nat.le_of_lt Nat.lt_log2_self)
          _ = 2 ^ m.log2 * 2 ^ k := by rw [← pow_add, ← pow_add, hbits]
          _ ≤ m * 2 ^ k := Nat.mul_le_mul_right _ (Nat.log2_self_le hm.ne')
      have hpos : 0 < m * 2 ^ k / m' := Nat.lt_of_lt_of_le (by decide) hquotient
      have := (Nat.le_log2 hpos.ne').2 hquotient
      refine ⟨.inl hpos, ?_⟩
      unfold unitExponent
      omega

theorem div (ha : Denotes a x) (hb : Denotes b y) (hy : y ≠ 0) :
    ∃ r, Denotes (UnpackedFloat.div .binary64 a b) r ∧ Rounded (x / y) r := by
  cases hb with
  | zero => exact absurd rfl hy
  | @finite s' m' e' hm' _ _ _ =>
    cases ha with
    | zero s =>
      rw [zero_div]
      exact ⟨0, .zero _, .zero⟩
    | @finite s m e hm lt _ _ =>
      obtain ⟨k, t, hk, hcore, hpos, hunit⟩ := exists_divCore_eq e e' hm hm' lt
      have hvalue : factor s * (m * 2 ^ e) / (factor s' * (m' * (2 : ℚ) ^ e')) =
          factor (s / s') * ((m * 2 ^ k : Nat) / m' * 2 ^ t) := by
        rw [factor_div, mul_div_mul_comm, mul_div_mul_comm, ← zpow_sub₀ (by norm_num), ← hk,
          zpow_add₀ (by norm_num), zpow_natCast]
        push_cast
        ring
      rw [hvalue]
      show ∃ r, Denotes (let (n, t, acc) := divCore .binary64 m e m' e'
        roundWithAccuracy .binary64 (s / s') n t acc) r ∧ _
      rw [hcore]
      exact denotes_roundWithAccuracy (s / s') (lies_quotient _ hm') hpos hunit

/-- Of two canonical numbers the one with the greater exponent is the greater one. -/
theorem value_lt_value {m m' : Nat} {e e' : Int} (lt : m < 2 ^ 53) (least : leastExponent ≤ e)
    (full' : e' = leastExponent ∨ 2 ^ 52 ≤ m') (h : e < e') : (m : ℚ) * 2 ^ e < m' * 2 ^ e' := by
  have hfull' : 2 ^ 52 ≤ m' := full'.resolve_left (by omega)
  calc (m : ℚ) * 2 ^ e < 2 ^ 53 * 2 ^ e :=
        mul_lt_mul_of_pos_right (by exact_mod_cast lt) (by positivity)
    _ = 2 ^ 52 * 2 ^ (e + 1) := by
      rw [zpow_add₀ (by norm_num)]
      ring
    _ ≤ 2 ^ 52 * 2 ^ e' :=
      mul_le_mul_of_nonneg_left (zpow_le_zpow_right₀ (by norm_num) h) (by positivity)
    _ ≤ m' * 2 ^ e' := mul_le_mul_of_nonneg_right (by exact_mod_cast hfull') (by positivity)

theorem positive_of_nonneg {s : Sign} {m : Nat} {e : Int} (hm : 0 < m)
    (h : 0 ≤ factor s * (m * (2 : ℚ) ^ e)) : s = .positive := by
  cases s with
  | positive => rfl
  | negative =>
    have hpos : (0 : ℚ) < m * 2 ^ e := by positivity
    unfold factor at h
    linarith

/-- Numbers that are not negative are compared by their values. -/
theorem lt_iff (ha : Denotes a x) (hb : Denotes b y) (hx : 0 ≤ x) (hy : 0 < y) :
    a.lt b = true ↔ x < y := by
  cases hb with
  | zero => exact absurd hy (lt_irrefl 0)
  | @finite s' m' e' hm' lt' least' full' =>
    obtain rfl := positive_of_nonneg hm' hy.le
    cases ha with
    | zero => exact iff_of_true rfl hy
    | @finite s m e hm lt least full =>
      obtain rfl := positive_of_nonneg hm hx
      show (some ((compare e e').then (compare m m')) == some .lt) = true ↔
        1 * ((m : ℚ) * 2 ^ e) < 1 * (m' * 2 ^ e')
      rw [one_mul, one_mul, beq_iff_eq, Option.some.injEq]
      rcases Int.lt_trichotomy e e' with he | rfl | he
      · rw [Int.compare_eq_lt.2 he]
        exact iff_of_true rfl (value_lt_value lt least full' he)
      · rw [Int.compare_eq_eq.2 rfl]
        show compare m m' = .lt ↔ _
        rw [Nat.compare_eq_lt, mul_lt_mul_iff_of_pos_right (by positivity), Nat.cast_lt]
      · rw [Int.compare_eq_gt.2 he]
        exact iff_of_false nofun (value_lt_value lt' least' full he).not_gt

end Denotes

end MidiScore
