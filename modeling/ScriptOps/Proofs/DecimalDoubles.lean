import ScriptOps.Number.Decimal
import ScriptOps.Proofs.NearestDouble

/-!
# The double of a decimal

Reading a decimal rounds its value once, whatever its exponent: a positive power of ten is
multiplied out, a negative one is divided by with a remainder that tells the fraction, and the two
short cuts for exponents that are out of reach give what rounding would give. So the double depends
on the value alone, not on how it is split into digits and a power of ten.
-/

namespace ScriptOps

open Float.Model Float.Model.UnpackedFloat Rounding

/-! ### The value of a decimal -/

namespace Decimal

/-- The number that a decimal denotes. -/
def value (d : Decimal) : ℚ :=
  d.digits * 10 ^ d.exponent

/-- A decimal is not negative. -/
theorem value_nonneg (d : Decimal) : 0 ≤ d.value := by
  unfold value
  positivity

/-- Taking zeros off the end keeps the value. -/
theorem stripZeros_value (fuel : ℕ) (d : Decimal) : (d.stripZeros fuel).value = d.value := by
  induction fuel generalizing d with
  | zero => rfl
  | succ fuel ih =>
    rw [stripZeros]
    split
    · next hzero =>
      have hdigits : (d.digits : ℚ) = (d.digits / 10 : ℕ) * 10 := by
        exact_mod_cast (Nat.div_mul_cancel (Nat.dvd_of_mod_eq_zero hzero)).symm
      rw [ih, value, value, hdigits, zpow_add₀ (by norm_num), zpow_one]
      ring
    · rfl

/-- Zeros at the end of the digits do not count. -/
theorem canonical_value (d : Decimal) : d.canonical.value = d.value := by
  rw [canonical]
  split
  · next hzero => simp [value, hzero]
  · exact stripZeros_value _ d

end Decimal

/-! ### Powers of ten -/

namespace Rounding

/-- Of the doubles of rationals, the one whose place is known is known. -/
theorem pack_nearest_eq {f : UnpackedFloat} (hf : IsMagnitude f) {x : ℚ} (hx : 0 ≤ x)
    (hrank : rank (doubleOf x).toModel.unpack = rank f) : pack f = pack (nearest .positive x) := by
  rw [← eq_of_rank_eq (isMagnitude_doubleOf hx) hf hrank, pack_unpack]
  rfl

/-- A power of ten that is out of reach gives infinity. -/
theorem pack_nearest_of_large {m : ℕ} (hm : 0 < m) {e : ℤ} (he : 2048 < e) :
    pack (.infinity .positive) = pack (nearest .positive (m * 10 ^ e)) := by
  have hx : (0 : ℚ) < m * 10 ^ e := by positivity
  have hlog : 2048 ≤ Int.log 2 (m * 10 ^ e : ℚ) := by
    rw [← Int.zpow_le_iff_le_log Nat.one_lt_two hx, Nat.cast_ofNat]
    calc (2 : ℚ) ^ (2048 : ℤ) ≤ 2 ^ e := zpow_le_zpow_right₀ one_le_two he.le
      _ ≤ 10 ^ e := zpow_le_zpow_left₀ (by omega) (by norm_num) (by norm_num)
      _ ≤ m * 10 ^ e := le_mul_of_one_le_left (by positivity) (Nat.one_le_cast.2 hm)
  refine pack_nearest_eq (f := .infinity .positive) rfl hx.le ?_
  rw [rank_doubleOf hx.le, grid_of_pos hx]
  simp only [rank]
  omega

/-- The bits of the digits bound how large they become by a negative power of ten. -/
theorem mul_ten_zpow_lt {m : ℕ} {e : ℤ} (he : e ≤ 0) :
    (m * 10 ^ e : ℚ) < 2 ^ ((m.log2 : ℤ) + 1 + e) := by
  have hpow : (10 : ℚ) ^ e ≤ 2 ^ e := by
    obtain ⟨u, rfl⟩ : ∃ u : ℕ, e = -(u : ℤ) := ⟨(-e).toNat, by omega⟩
    rw [zpow_neg, zpow_neg, zpow_natCast, zpow_natCast]
    exact inv_anti₀ (by positivity) (pow_le_pow_left₀ two_pos.le (by norm_num) u)
  calc (m * 10 ^ e : ℚ) < (m + 1) * 10 ^ e :=
        mul_lt_mul_of_pos_right (lt_add_one _) (by positivity)
    _ ≤ 2 ^ ((m.log2 : ℤ) + 1) * 2 ^ e :=
        mul_le_mul (add_one_le_two_zpow_log2 m) hpow (by positivity) (by positivity)
    _ = 2 ^ ((m.log2 : ℤ) + 1 + e) := (zpow_add₀ two_ne_zero _ _).symm

/-- A negative power of ten that is out of reach gives zero. -/
theorem pack_nearest_of_small {m : ℕ} (hm : 0 < m) {e : ℤ} (he : e < -(2048 + m.log2)) :
    pack (.zero .positive) = pack (nearest .positive (m * 10 ^ e)) := by
  have hx : (0 : ℚ) < m * 10 ^ e := by positivity
  have hbound : (m * 10 ^ e : ℚ) < 2 ^ (-1076 : ℤ) :=
    (mul_ten_zpow_lt (by omega)).trans_le (zpow_le_zpow_right₀ one_le_two (by omega))
  have hlog : Int.log 2 (m * 10 ^ e : ℚ) < -1076 := by
    rw [← Int.lt_zpow_iff_log_lt Nat.one_lt_two hx]
    exact_mod_cast hbound
  have hgrid : grid (m * 10 ^ e) = -1074 := by
    rw [grid_of_pos hx]
    omega
  have hrounded : nearestEven (m * 10 ^ e / 2 ^ (-1074 : ℤ)) = 0 := by
    have hquarter : (m * 10 ^ e / 2 ^ (-1074 : ℤ) : ℚ) < 1 / 2 := by
      rw [div_lt_iff₀ (by positivity)]
      refine hbound.trans_le ?_
      rw [show (-1076 : ℤ) = -2 + -1074 by norm_num, zpow_add₀ two_ne_zero]
      exact mul_le_mul_of_nonneg_right (by norm_num) (by positivity)
    have hadd := nearestEven_add 0 (f := m * 10 ^ e / 2 ^ (-1074 : ℤ)) (by positivity)
      (hquarter.trans (by norm_num))
    rwa [Nat.cast_zero, zero_add, if_pos hquarter] at hadd
  refine pack_nearest_eq (f := .zero .positive) rfl hx.le ?_
  rw [rank_doubleOf hx.le, hgrid, hrounded]
  rfl

/-- The exponent of a quotient is at most one less than the difference of the exponents. -/
theorem log2_sub_log2_le_log_div {m n : ℕ} (hm : 0 < m) (hn : 0 < n) :
    (m.log2 : ℤ) - n.log2 - 1 ≤ Int.log 2 (m / n : ℚ) := by
  have hnpos : (0 : ℚ) < n := Nat.cast_pos.2 hn
  have hx : (0 : ℚ) < m / n := div_pos (Nat.cast_pos.2 hm) hnpos
  rw [← Int.zpow_le_iff_le_log Nat.one_lt_two hx, Nat.cast_ofNat, le_div_iff₀ hnpos]
  calc (2 : ℚ) ^ ((m.log2 : ℤ) - n.log2 - 1) * n
      ≤ 2 ^ ((m.log2 : ℤ) - n.log2 - 1) * (n + 1) :=
        mul_le_mul_of_nonneg_left (lt_add_one _).le (by positivity)
    _ ≤ 2 ^ ((m.log2 : ℤ) - n.log2 - 1) * 2 ^ ((n.log2 : ℤ) + 1) :=
        mul_le_mul_of_nonneg_left (add_one_le_two_zpow_log2 n) (by positivity)
    _ = 2 ^ (m.log2 : ℤ) := by
        rw [← zpow_add₀ two_ne_zero]
        congr 1
        ring
    _ ≤ m := two_zpow_log2_le hm

/-- A power of two moves the exponent. -/
theorem log_mul_two_zpow {x : ℚ} (hx : 0 < x) (i : ℤ) :
    Int.log 2 (x * 2 ^ i) = Int.log 2 x + i := by
  have hpos : 0 < x * 2 ^ i := by positivity
  have hunit : (0 : ℚ) < 2 ^ i := by positivity
  apply le_antisymm
  · have hle := Int.zpow_log_le_self (R := ℚ) Nat.one_lt_two hpos
    rw [← sub_le_iff_le_add, ← Int.zpow_le_iff_le_log Nat.one_lt_two hx, Nat.cast_ofNat,
      zpow_sub₀ two_ne_zero, div_le_iff₀ hunit]
    exact_mod_cast hle
  · have hle := Int.zpow_log_le_self (R := ℚ) Nat.one_lt_two hx
    rw [← Int.zpow_le_iff_le_log Nat.one_lt_two hpos, Nat.cast_ofNat, zpow_add₀ two_ne_zero]
    exact mul_le_mul_of_nonneg_right (by exact_mod_cast hle) hunit.le

/-- A quotient is rounded once. -/
theorem div_eq_nearest (s s' : Sign) {m n : ℕ} (hm : 0 < m) (hn : 0 < n) (e i : ℤ) :
    UnpackedFloat.div .binary64 (.finite s m e hm) (.finite s' n i hn) =
      nearest (s / s') (m * 2 ^ e / (n * 2 ^ i)) := by
  have hnpos : (0 : ℚ) < n := Nat.cast_pos.2 hn
  have hquotient : (0 : ℚ) < m / n := div_pos (Nat.cast_pos.2 hm) hnpos
  have hx : (m * 2 ^ e / (n * 2 ^ i) : ℚ) = m / n * 2 ^ (e - i) := by
    rw [zpow_sub₀ two_ne_zero]
    ring
  have hpos : (0 : ℚ) < m / n * 2 ^ (e - i) := mul_pos hquotient (by positivity)
  have htotal : Format.binary64.targetExponent (totalExponent m e - totalExponent n i) =
      max ((m.log2 : ℤ) - n.log2 + (e - i) - 53) (-1074) := by
    simp only [Format.targetExponent, totalExponent, Format.mantissaBits, Format.minExponent]
    norm_num
    omega
  obtain ⟨k, hk⟩ : ∃ k : ℕ, min (e - i) (Format.binary64.targetExponent
      (totalExponent m e - totalExponent n i)) = e - i - k :=
    ⟨(e - i - min (e - i) (Format.binary64.targetExponent
      (totalExponent m e - totalExponent n i))).toNat, by omega⟩
  have hdiv : UnpackedFloat.div .binary64 (.finite s m e hm) (.finite s' n i hn) =
      roundWithAccuracy .binary64 (s / s') (m * 2 ^ k / n) (e - i - k)
        (accuracyOfFraction (m * 2 ^ k % n) n) := by
    have hshift : (e - i - (e - i - k)).toNat = k := by omega
    simp only [UnpackedFloat.div, divCore, hk, hshift, Nat.shiftLeft_eq]
  have hscaled : (m / n * 2 ^ (e - i) : ℚ) / 2 ^ (e - i - k) = (m * 2 ^ k : ℕ) / n := by
    rw [mul_div_assoc, ← zpow_sub₀ two_ne_zero, sub_sub_cancel, zpow_natCast]
    push_cast
    ring
  have hlog := log_mul_two_zpow hquotient (e - i)
  have hle : e - i - k ≤ grid (m / n * 2 ^ (e - i)) := by
    have hbound := log2_sub_log2_le_log_div hm hn
    rw [grid_of_pos hpos, hlog]
    omega
  have htracks := tracks_div (m * 2 ^ k) hn
  rw [← hscaled] at htracks
  rw [hdiv, hx]
  refine roundWithAccuracy_eq_nearest _ htracks ?_ hle
  rcases Nat.eq_zero_or_pos (m * 2 ^ k / n) with hzero | hquotient'
  · -- less than one unit of the least exponent
    have hlt : (m / n * 2 ^ (e - i) : ℚ) < 2 ^ (e - i - k) := by
      have hnat : m * 2 ^ k < n := (Nat.div_eq_zero_iff.1 hzero).resolve_left hn.ne'
      have hcast : ((m * 2 ^ k : ℕ) : ℚ) < n := Nat.cast_lt.2 hnat
      rw [← div_lt_one (by positivity), hscaled, div_lt_one hnpos]
      exact hcast
    have hlog' : Int.log 2 (m / n * 2 ^ (e - i) : ℚ) < e - i - k := by
      rw [← Int.lt_zpow_iff_log_lt Nat.one_lt_two hpos, Nat.cast_ofNat]
      exact hlt
    rw [hzero, target_eq, Nat.log2_zero]
    rw [grid_of_pos hpos] at hle ⊢
    omega
  · refine target_eq_grid hquotient' ?_ ?_
    · rw [hscaled]
      exact Nat.cast_div_le
    · rw [hscaled, div_lt_iff₀ hnpos]
      have hlt := Nat.lt_mul_of_div_lt (Nat.lt_succ_self (m * 2 ^ k / n)) hn
      exact_mod_cast hlt

/-- Digits and a power of ten are rounded once. -/
theorem pack_ofScientific (m : ℕ) (e : ℤ) :
    pack (UnpackedFloat.ofScientific .binary64 m e) = pack (nearest .positive (m * 10 ^ e)) := by
  unfold UnpackedFloat.ofScientific
  split
  · next hzero =>
    have hvalue : (m * 10 ^ e : ℚ) = 0 := by simp [hzero]
    rw [hvalue, nearest_zero]
  · next hne =>
    have hm := Nat.pos_of_ne_zero hne
    split
    · next hlarge => exact pack_nearest_of_large hm hlarge
    · split
      · next hsmall => exact pack_nearest_of_small hm hsmall
      · split
        · next he =>
          obtain ⟨u, rfl⟩ := Int.eq_ofNat_of_zero_le he
          have hpos : 0 < m * 10 ^ u := Nat.mul_pos hm (Nat.pow_pos (by decide))
          have hround := round_eq_roundWithAccuracy .positive hpos (e := 0) (k := 53)
            (by rw [target_eq]; omega)
          have hmantissa : m * 10 ^ u * 2 ^ 53 = m <<< 53 * 10 ^ u := by
            rw [Nat.shiftLeft_eq]
            ring
          have hnearest := round_eq_nearest .positive hpos 0
          rw [hround, hmantissa, zpow_zero, mul_one] at hnearest
          push_cast at hnearest
          have hpower : (10 : ℚ) ^ (u : ℤ) = 10 ^ u := zpow_natCast _ _
          rw [hpower, ← hnearest]
          rfl
        · next he =>
          obtain ⟨u, rfl⟩ : ∃ u : ℕ, e = -(u : ℤ) := ⟨(-e).toNat, by omega⟩
          have hu : (- -(u : ℤ)).toNat = u := by omega
          have hvalue : (m * 10 ^ (-(u : ℤ)) : ℚ) = m / (10 ^ u : ℕ) := by
            rw [zpow_neg, zpow_natCast, ← div_eq_mul_inv]
            push_cast
            rfl
          simp only [hu]
          rw [div_eq_nearest, zpow_zero, mul_one, mul_one, hvalue]
          rfl

end Rounding

/-- Reading a decimal rounds its value once. -/
theorem Decimal.toFloat_eq_doubleOf (d : Decimal) : d.toFloat = doubleOf d.value := by
  rw [← d.canonical_value]
  exact congrArg Float.ofModel (pack_ofScientific _ _)

end ScriptOps
