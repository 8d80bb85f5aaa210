import MidiScore.Music.Dynamic
import MidiScore.Proofs.Number.Arithmetic

/-!
# The rational numbers that floating-point numbers show

A floating-point number is kept as a word of 64 bits. A canonical number that is not too great comes
back from the word as it was (`Denotes.unpack_pack`), so sums, products and quotients of
floating-point numbers show their exact results but for a small error (`Shows.add`, `Shows.mul`,
`Shows.div`), and integers of at most 53 bits are shown exactly (`shows_ofInt`). What a number shows
decides the tick to which it is rounded (`nearestTick_of_shows`).
-/

namespace MidiScore

open Float.Model Float.Model.UnpackedFloat

/-! ## Packing -/

theorem toNat_one_append (m : BitVec 52) : (1#1 ++ m).toNat = 2 ^ 52 + m.toNat := by
  rw [BitVec.toNat_append, ← Nat.shiftLeft_add_eq_or_of_lt m.isLt]
  rfl

theorem unpack_subnormal (s : Sign) {m : BitVec 52} (hm : 0 < m.toNat) :
    unpack .binary64 (packComponents .binary64 s 0#11 m) = .finite s m.toNat leastExponent hm := by
  have hzero : m ≠ 0#52 := by
    rintro rfl
    exact absurd hm (Nat.lt_irrefl 0)
  unfold UnpackedFloat.unpack
  simp only [unpackMantissa_packComponents, unpackExponent_packComponents,
    unpackSign_packComponents, Sign.ofBitVec_toBitVec]
  rw [if_neg (by decide), if_pos trivial, dif_neg hzero]
  rfl

theorem unpack_normal (s : Sign) {e : BitVec 11} (m : BitVec 52) (he : e ≠ -1#11) (he' : e ≠ 0#11)
    (hm : 0 < 2 ^ 52 + m.toNat) :
    unpack .binary64 (packComponents .binary64 s e m) =
      .finite s (2 ^ 52 + m.toNat) (e.toNat - 1075) hm := by
  unfold UnpackedFloat.unpack
  simp only [unpackMantissa_packComponents, unpackExponent_packComponents,
    unpackSign_packComponents, Sign.ofBitVec_toBitVec]
  rw [if_neg he, if_neg he', UnpackedFloat.finite.injEq]
  exact ⟨rfl, toNat_one_append m, rfl⟩

/-- A finite number is packed by its mantissa and exponent if its exponent is not too great. -/
theorem pack_finite (s : Sign) {m : Nat} {e : Int} (hm : 0 < m) (least : leastExponent ≤ e)
    (he : e ≤ 971) :
    pack .binary64 (.finite s m e hm) =
      if m.log2 + 1 = 53 then
        packComponents .binary64 s (BitVec.ofNat 11 (e + 1075).toNat) (BitVec.ofNat 52 m)
      else packComponents .binary64 s 0#11 (BitVec.ofNat 52 m) := by
  have hbiased : (e + Format.binary64.exponentBias + (52 : Nat)).toNat = (e + 1075).toNat := by
    rw [Int.add_assoc]
    rfl
  have hfits : ¬ 2 ^ 11 ≤ (e + 1075).toNat + 1 := by
    unfold leastExponent at least
    omega
  unfold UnpackedFloat.pack
  dsimp only
  rw [hbiased, if_neg hfits]
  rfl

theorem unpack_pack_finite (s : Sign) {m : Nat} {e : Int} (hm : 0 < m) (lt : m < 2 ^ 53)
    (least : leastExponent ≤ e) (full : e = leastExponent ∨ 2 ^ 52 ≤ m) (he : e ≤ 971) :
    unpack .binary64 (pack .binary64 (.finite s m e hm)) = .finite s m e hm := by
  rw [pack_finite s hm least he]
  unfold leastExponent at least
  by_cases hfull : 2 ^ 52 ≤ m
  · have hlog : m.log2 + 1 = 53 := congrArg (· + 1) ((Nat.log2_eq_iff hm.ne').2 ⟨hfull, lt⟩)
    have hmantissa : 2 ^ 52 + (BitVec.ofNat 52 m).toNat = m := by
      rw [BitVec.toNat_ofNat, Nat.mod_eq_sub_mod hfull, Nat.mod_eq_of_lt (by omega)]
      omega
    have hexponent : (BitVec.ofNat 11 (e + 1075).toNat).toNat = (e + 1075).toNat := by
      rw [BitVec.toNat_ofNat, Nat.mod_eq_of_lt (by omega)]
    have hne : ∀ n : BitVec 11, n.toNat = 0 ∨ n.toNat = 2047 →
        BitVec.ofNat 11 (e + 1075).toNat ≠ n := by
      intro n hn heq
      rw [heq] at hexponent
      omega
    rw [if_pos hlog, unpack_normal s _ (hne _ (.inr rfl)) (hne _ (.inl rfl)) (by omega),
      UnpackedFloat.finite.injEq]
    refine ⟨rfl, hmantissa, ?_⟩
    rw [hexponent]
    omega
  · obtain rfl := full.resolve_right hfull
    have hlog : m.log2 + 1 ≠ 53 := by
      have := (Nat.log2_lt hm.ne').2 (Nat.not_le.1 hfull)
      omega
    have hmantissa : (BitVec.ofNat 52 m).toNat = m := by
      rw [BitVec.toNat_ofNat, Nat.mod_eq_of_lt (Nat.not_le.1 hfull)]
    rw [if_neg hlog, unpack_subnormal s (by rwa [hmantissa]), UnpackedFloat.finite.injEq]
    exact ⟨rfl, hmantissa, rfl⟩

/-- A canonical number that is not too great is packed without a loss. -/
theorem Denotes.unpack_pack {u : UnpackedFloat} {v : ℚ} (h : Denotes u v) (hv : |v| ≤ 2 ^ 201) :
    unpack .binary64 (pack .binary64 u) = u := by
  cases h with
  | zero s => exact unpack_packedZero
  | @finite s m e hm lt least full =>
    refine unpack_pack_finite s hm lt least full ?_
    by_contra hgreat
    have hfull : 2 ^ 52 ≤ m := full.resolve_left (by unfold leastExponent; omega)
    have hbig : (2 : ℚ) ^ (202 : ℤ) ≤ m * 2 ^ e :=
      calc (2 : ℚ) ^ (202 : ℤ) ≤ 2 ^ (52 + e) :=
            zpow_le_zpow_right₀ (by norm_num) (by omega)
        _ = 2 ^ (52 : ℤ) * 2 ^ e := zpow_add₀ (by norm_num) ..
        _ ≤ m * 2 ^ e := mul_le_mul_of_nonneg_right (by exact_mod_cast hfull) (by positivity)
    rw [abs_factor_mul, abs_of_nonneg (by positivity)] at hv
    have hle := hbig.trans hv
    rw [← zpow_natCast, zpow_le_zpow_iff_right₀ (by norm_num)] at hle
    omega

/-! ## Floating-point numbers -/

/-- The floating-point number is finite and has the value `v`. -/
def Shows (x : Float) (v : ℚ) : Prop :=
  Denotes x.toModel.unpack v

/-- A bound that is neither too small nor too great for the results below it to be rounded well. -/
structure Moderate (b : ℚ) : Prop where
  least : (2 : ℚ) ^ (-200 : ℤ) ≤ b
  greatest : b ≤ (2 : ℚ) ^ (200 : ℤ)

/-- A canonical number that is the rounded value of an exact result is packed without a loss, and
its error is small against a bound of the exact result. -/
theorem shows_pack {u : UnpackedFloat} {v b : ℚ} (h : ∃ r, Denotes u r ∧ Rounded v r)
    (hb : Moderate b) (hv : |v| ≤ b) :
    ∃ r, Shows (.ofModel (.pack u)) r ∧ |r - v| ≤ b / 2 ^ 53 ∧ Rounded v r := by
  obtain ⟨r, hu, hr⟩ := h
  have herror := hr.error_le hb.least hv
  have hle : |r| ≤ 2 ^ 201 := by
    have htriangle := abs_add_le (r - v) v
    have hgreatest := hb.greatest
    rw [sub_add_cancel] at htriangle
    rw [zpow_ofNat] at hgreatest
    have hhalf : b / 2 ^ 53 ≤ b := div_le_self ((abs_nonneg v).trans hv) (by norm_num)
    calc |r| ≤ b + b := by linarith
      _ ≤ 2 * 2 ^ 200 := by linarith
      _ = 2 ^ 201 := (pow_succ' 2 200).symm
  refine ⟨r, ?_, herror, hr⟩
  show Denotes (unpack .binary64 (pack .binary64 u)) r
  rwa [hu.unpack_pack hle]

/-- An exact result that is an integer of at most 53 bits is packed as it is. -/
theorem shows_pack_of_int {u : UnpackedFloat} {v : ℚ} {j : ℤ}
    (h : ∃ r, Denotes u r ∧ Rounded v r) (hv : v = j) (hj : |j| < 2 ^ 53) :
    Shows (.ofModel (.pack u)) j := by
  have hle : |v| ≤ 2 ^ 53 := by
    rw [hv]
    exact_mod_cast hj.le
  obtain ⟨r, hr, -, hrounded⟩ := shows_pack h ⟨by norm_num, by norm_num⟩ hle
  rwa [hrounded.eq_of_int hv hj, hv] at hr

namespace Shows

variable {x y : Float} {v w b : ℚ}

theorem add (hx : Shows x v) (hy : Shows y w) (hb : Moderate b) (h : |v + w| ≤ b) :
    ∃ r, Shows (x + y) r ∧ |r - (v + w)| ≤ b / 2 ^ 53 := by
  obtain ⟨r, hr, herror, -⟩ := shows_pack (Denotes.add hx hy) hb h
  exact ⟨r, hr, herror⟩

theorem mul (hx : Shows x v) (hy : Shows y w) (hb : Moderate b) (h : |v * w| ≤ b) :
    ∃ r, Shows (x * y) r ∧ |r - v * w| ≤ b / 2 ^ 53 := by
  obtain ⟨r, hr, herror, -⟩ := shows_pack (Denotes.mul hx hy) hb h
  exact ⟨r, hr, herror⟩

theorem div (hx : Shows x v) (hy : Shows y w) (hw : w ≠ 0) (hb : Moderate b) (h : |v / w| ≤ b) :
    ∃ r, Shows (x / y) r ∧ |r - v / w| ≤ b / 2 ^ 53 := by
  obtain ⟨r, hr, herror, -⟩ := shows_pack (Denotes.div hx hy hw) hb h
  exact ⟨r, hr, herror⟩

end Shows

theorem shows_one : Shows (.ofBits 0x3FF0000000000000) 1 := by
  have hunpack : unpack .binary64 (pack .binary64 (unpack .binary64 0x3FF0000000000000#64)) =
      .finite .positive (2 ^ 52) (-52) (by decide) := by
    rfl
  show Denotes (unpack .binary64 (pack .binary64 (unpack .binary64 0x3FF0000000000000#64))) 1
  rw [hunpack]
  convert Denotes.finite .positive (m := 2 ^ 52) (e := -52) (by decide) (by decide) (by decide)
    (.inr (Nat.le_refl _))
  norm_num [factor]

/-- A natural number of at most 53 bits is converted without a loss. -/
theorem shows_ofNat {n : Nat} (hn : n < 2 ^ 53) : Shows (.ofNat n) n := by
  have hlt : n < 2 ^ 64 := Nat.lt_trans hn (by decide)
  have hj : |(n : ℤ)| < 2 ^ 53 := by
    rw [Nat.abs_cast]
    exact_mod_cast hn
  have hfloat : Float.ofNat n = n.toUInt64.toFloat * .ofBits 0x3FF0000000000000 := by
    show Float.ofScientific n false 0 = _
    unfold Float.ofScientific
    rw [dif_pos ⟨hn, Nat.zero_le _⟩]
    rfl
  have hword : UnpackedFloat.ofUInt64 .binary64 n.toUInt64 =
      normalize .binary64 (n : Int) 0 .positive := by
    show normalize .binary64 ((n.toUInt64.toNat : Nat) : Int) 0 .positive = _
    rw [UInt64.toNat_ofNat_of_lt' hlt]
  have hconverted : Shows n.toUInt64.toFloat (n : ℤ) := by
    refine shows_pack_of_int (v := (n : ℤ) * 2 ^ (0 : ℤ)) ?_ (by simp) hj
    rw [hword]
    exact Denotes.normalize n 0 .positive
  -- converting a literal multiplies by a power of ten, here the zeroth
  rw [hfloat]
  exact shows_pack_of_int (Denotes.mul hconverted shows_one) (by simp) hj

theorem Shows.neg {x : Float} {v : ℚ} (h : Shows x v) (hv : |v| ≤ 2 ^ 201) :
    Shows (Float.neg x) (-v) := by
  show Denotes (unpack .binary64 (pack .binary64 x.toModel.unpack.neg)) (-v)
  rw [(Denotes.neg h).unpack_pack (by rwa [abs_neg])]
  exact Denotes.neg h

/-- An integer of at most 53 bits is converted without a loss. -/
theorem shows_ofInt {n : Int} (hn : n.natAbs < 2 ^ 53) : Shows (.ofInt n) n := by
  cases n with
  | ofNat n => exact_mod_cast shows_ofNat hn
  | negSucc n =>
    rw [Int.cast_negSucc]
    refine (shows_ofNat hn).neg ?_
    rw [Nat.abs_cast]
    exact_mod_cast hn.le.trans (by decide)

/-- Numbers that are not negative are compared by their values. -/
theorem less_iff {x y : Float} {v w : ℚ} (hx : Shows x v) (hy : Shows y w) (hv : 0 ≤ v)
    (hw : 0 < w) : RampNumber.less x y = true ↔ v < w := by
  rw [← Denotes.lt_iff hx hy hv hw]
  show decide (x.lt y = true) = true ↔ _
  rw [decide_eq_true_iff]
  exact decide_eq_true_iff

/-! ## Ticks -/

theorem toNat_unpackExponent (b : BitVec 64) :
    (@unpackExponent .binary64 b).toNat = (b.toNat >>> 52) % 2048 := by
  simp [unpackExponent]

theorem toNat_unpackMantissa (b : BitVec 64) :
    (@unpackMantissa .binary64 b).toNat = b.toNat % (1 <<< 52) := by
  simp [unpackMantissa]

theorem toNat_unpackSign (b : BitVec 64) :
    (@unpackSign .binary64 b).toNat = b.toNat >>> 63 := by
  have hbit : b.toNat >>> 63 < 2 ^ 1 := by
    rw [Nat.shiftRight_eq_div_pow]
    exact Nat.div_lt_of_lt_mul b.isLt
  rw [unpackSign_def, BitVec.extractLsb'_toNat]
  exact Nat.mod_eq_of_lt hbit

theorem factor_ofBitVec (b : BitVec 1) :
    factor (Sign.ofBitVec b) = if decide (b.toNat = 1) then -1 else 1 := by
  obtain rfl | rfl := BitVec.eq_zero_or_eq_one b <;> rfl

/-- A number that shows `v` is taken apart into a sign, a mantissa and an exponent of `v`. -/
theorem ofFloat_of_shows {x : Float} {v : ℚ} (h : Shows x v) :
    ∃ negative m q, Binary64.ofFloat x = .finite negative m q ∧
      v = (if negative then -1 else 1) * (m * 2 ^ q) := by
  have hbits : x.toBits.toNat = x.toModel.toBits.toBitVec.toNat := rfl
  unfold Shows Float.Model.unpack UnpackedFloat.unpack at h
  unfold Binary64.ofFloat
  rw [hbits]
  dsimp only at h ⊢
  rw [← toNat_unpackExponent, ← toNat_unpackMantissa, ← toNat_unpackSign]
  by_cases hspecial : @unpackExponent .binary64 x.toModel.toBits.toBitVec = -1#11
  · rw [if_pos hspecial] at h
    split at h <;> cases h
  · rw [if_neg hspecial] at h
    rw [if_neg (show _ ≠ 2047 from BitVec.toNat_ne.1 hspecial)]
    by_cases hzero : @unpackExponent .binary64 x.toModel.toBits.toBitVec = 0#11
    · rw [if_pos hzero] at h
      rw [if_pos (show _ = 0 from congrArg BitVec.toNat hzero)]
      refine ⟨_, _, _, rfl, ?_⟩
      rw [← factor_ofBitVec]
      split at h
      · next hm =>
        rw [h.value_zero, hm]
        simp
      · rw [h.value_finite, hzero]
        rfl
    · rw [if_neg hzero] at h
      rw [if_neg (show _ ≠ 0 from BitVec.toNat_ne.1 hzero)]
      refine ⟨_, _, _, rfl, ?_⟩
      rw [← factor_ofBitVec, h.value_finite, toNat_one_append, Nat.add_comm]
      rfl

/-- A half goes upwards. -/
theorem roundScaled_eq (m : Nat) (q : Int) :
    (Binary64.roundScaled m q : ℤ) = ⌊(m : ℚ) * 2 ^ q + 1 / 2⌋ := by
  unfold Binary64.roundScaled
  split
  · next hq =>
    obtain ⟨k, rfl⟩ := Int.eq_ofNat_of_zero_le hq
    have hhalf : ⌊(1 / 2 : ℚ)⌋ = 0 := by norm_num
    rw [Int.toNat_natCast, Nat.shiftLeft_eq, zpow_natCast]
    have : (m : ℚ) * 2 ^ k = ((m * 2 ^ k : Nat) : ℤ) := by push_cast; rfl
    rw [this, Int.floor_intCast_add, hhalf, add_zero]
  · next hq =>
    obtain ⟨k, hk⟩ := Int.eq_ofNat_of_zero_le (a := -q) (by omega)
    have hvalue : (m : ℚ) * 2 ^ q + 1 / 2 = (2 * m + 2 ^ k : Nat) / (2 * 2 ^ k : Nat) := by
      rw [← neg_neg q, hk, zpow_neg, zpow_natCast]
      push_cast
      field_simp
    rw [hk, Int.toNat_natCast, Nat.one_shiftLeft, Binary64.roundQuotient, hvalue,
      Rat.floor_natCast_div_natCast]
    rfl

/-- The tick nearest to a number, a half upwards. -/
theorem nearestTick_of_shows {x : Float} {v : ℚ} (h : Shows x v) (hv : v ≤ 2 ^ 63) :
    nearestTick x = ⌊v + 1 / 2⌋.toNat := by
  obtain ⟨negative, m, q, hfloat, rfl⟩ := ofFloat_of_shows h
  unfold nearestTick
  rw [hfloat]
  dsimp only
  cases negative with
  | true =>
    have hnonneg : (0 : ℚ) ≤ m * 2 ^ q := by positivity
    have hfloor : ⌊(if true then (-1 : ℚ) else 1) * (m * 2 ^ q) + 1 / 2⌋ < 1 := by
      rw [Int.floor_lt, if_pos rfl]
      push_cast
      linarith
    rw [if_pos rfl, Int.toNat_of_nonpos (Int.lt_add_one_iff.1 hfloor)]
  | false =>
    simp only [Bool.false_eq_true, if_false, one_mul] at hv ⊢
    rw [← roundScaled_eq, Int.toNat_natCast, Nat.min_eq_left]
    have hfloor : (Binary64.roundScaled m q : ℤ) < 2 ^ 63 + 1 := by
      rw [roundScaled_eq, Int.floor_lt]
      push_cast
      linarith
    unfold maxTick
    omega

end MidiScore
