import Mathlib.Tactic.Linarith
import ScriptOps.Proofs.BitwiseOperators
import ScriptOps.Proofs.DecimalDoubles

/-!
# Values of rounded results

A finite double is exactly one rational. What an operation on doubles gives is nearest to what the
operation on the rationals gives: it lies on the same side of every number that a double can hold,
and for a result that is not tiny the error is at most one part in `2 ^ 53`. So a result that fits
is exact, and the floor of a quotient by a multiple of `2 ^ k` is that of the exact quotient as long
as the dividend is below `2 ^ (53 + k)`: a quotient that is not yet an integer is too far from it to
be rounded up to it.
-/

namespace ScriptOps

open Float.Model Float.Model.UnpackedFloat
open Rounding hiding abs_neg

/-! ### Exact values -/

/-- The double is finite, and is the number. -/
def IsExactly (x : Float) (v : ℚ) : Prop :=
  ∃ b, Binary.ofFloat? x = some b ∧ b.value = v

/-- The number has 53 bits, as a double has. The exponent is not bounded above. -/
def FitsDouble (v : ℚ) : Prop :=
  ∃ i e : ℤ, |i| < 2 ^ 53 ∧ -1074 ≤ e ∧ v = i * 2 ^ e

/-- The number with a sign. -/
def signed (s : Sign) (q : ℚ) : ℚ :=
  match s with
  | .positive => q
  | .negative => -q

/-- A zero of either sign is exactly zero. -/
theorem isExactly_zero {x : Float} {s : Sign} (hx : x.toModel.unpack = .zero s) :
    IsExactly x 0 := by
  refine ⟨_, by rw [Binary.ofFloat?, hx], ?_⟩
  simp [Binary.value, Binary.magnitude]

/-- A finite double is exactly its signed mantissa times the power of two. -/
theorem isExactly_finite {x : Float} {s : Sign} {m : ℕ} {e : ℤ} {hm : 0 < m}
    (hx : x.toModel.unpack = .finite s m e hm) : IsExactly x (signed s (m * 2 ^ e)) := by
  refine ⟨_, by rw [Binary.ofFloat?, hx], ?_⟩
  cases s <;> rfl

/-- A double that is a number is a zero or has a mantissa. -/
theorem IsExactly.cases {x : Float} {v : ℚ} (hx : IsExactly x v) :
    (v = 0 ∧ ∃ s, x.toModel.unpack = .zero s) ∨
      ∃ s m e, ∃ hm : 0 < m, x.toModel.unpack = .finite s m e hm ∧ v = signed s (m * 2 ^ e) := by
  obtain ⟨b, hb, rfl⟩ := hx
  cases hunpack : x.toModel.unpack with
  | zero s =>
    obtain ⟨b', hb', hvalue⟩ := isExactly_zero hunpack
    cases hb.symm.trans hb'
    exact .inl ⟨hvalue, s, rfl⟩
  | finite s m e hm =>
    obtain ⟨b', hb', hvalue⟩ := isExactly_finite hunpack
    cases hb.symm.trans hb'
    exact .inr ⟨s, m, e, hm, rfl, hvalue⟩
  | infinity s =>
    rw [Binary.ofFloat?, hunpack] at hb
    cases hb
  | notANumber =>
    rw [Binary.ofFloat?, hunpack] at hb
    cases hb

/-- A number with a mantissa is a double when its mantissa and its exponent are in range. -/
theorem isExactly_pack {s : Sign} {m : ℕ} {e : ℤ} (hm : 0 < m) (hupper : m < 2 ^ 53)
    (he : -1074 ≤ e) (he' : e ≤ 971) (hn : 2 ^ 52 ≤ m ∨ e = -1074) :
    IsExactly (.ofModel (pack (.finite s m e hm))) (signed s (m * 2 ^ e)) :=
  isExactly_finite (unpack_pack ⟨rfl, he, he', hupper, hn⟩)

/-- A double is a multiple of a power of two, which is no greater than the double needs. -/
theorem IsExactly.exists_unit {x : Float} {v : ℚ} (hx : IsExactly x v) :
    ∃ i e : ℤ, |i| < 2 ^ 53 ∧ -1074 ≤ e ∧ v = i * 2 ^ e ∧ (2 ^ 52 ≤ |i| ∨ e = -1074) := by
  rcases hx.cases with ⟨rfl, -⟩ | ⟨s, m, e, hm, hunpack, rfl⟩
  · exact ⟨0, -1074, by norm_num, le_rfl, by simp, .inr rfl⟩
  · have hbits := finite_cases hunpack
    have hrange := finite_range hunpack
    have habs : |s.apply (m : ℤ)| = m := by cases s <;> simp [Sign.apply]
    refine ⟨s.apply m, e, ?_, hrange.1, ?_, ?_⟩
    · rw [habs]
      omega
    · cases s <;> simp [signed, Sign.apply]
    · rw [habs]
      omega

/-- What a double is exactly fits in a double. -/
theorem IsExactly.fits {x : Float} {v : ℚ} (hx : IsExactly x v) : FitsDouble v := by
  obtain ⟨i, e, hi, he, hv, -⟩ := hx.exists_unit
  exact ⟨i, e, hi, he, hv⟩

/-- The integers below `2 ^ 53` in magnitude fit in a double. -/
theorem fitsDouble_intCast {i : ℤ} (hi : |i| < 2 ^ 53) : FitsDouble i :=
  ⟨i, 0, hi, by decide, by simp⟩

/-- A number with 53 bits has no places that are finer than it needs. -/
theorem le_unit_of_le_abs {i e l : ℤ} (hi : |i| < 2 ^ 53)
    (hlarge : 2 ^ (52 + l) ≤ |(i * 2 ^ e : ℚ)|) : l ≤ e := by
  have hunit : (0 : ℚ) < 2 ^ e := by positivity
  have hi' : |(i : ℚ)| < 2 ^ (53 : ℤ) := by exact_mod_cast hi
  have hpow : (2 : ℚ) ^ (52 + l) < 2 ^ (53 + e) := by
    rw [abs_mul, abs_of_pos hunit] at hlarge
    rw [zpow_add₀ two_ne_zero 53]
    exact hlarge.trans_lt (mul_lt_mul_of_pos_right hi' hunit)
  have hlt := (zpow_lt_zpow_iff_right₀ one_lt_two).1 hpow
  omega

/-- A small number without fine places fits. -/
theorem fitsDouble_of_lt {i e l : ℤ} (he : -1074 ≤ e) (hl : l ≤ e) (hlower : 0 ≤ (i * 2 ^ e : ℚ))
    (hupper : (i * 2 ^ e : ℚ) < 2 ^ (53 + l)) : FitsDouble (i * 2 ^ e) := by
  have hunit : (0 : ℚ) < 2 ^ e := by positivity
  have hnonneg := nonneg_of_mul_nonneg_left hlower hunit
  have hpow : (2 : ℚ) ^ (53 + l) ≤ 2 ^ (53 : ℤ) * 2 ^ e := by
    rw [← zpow_add₀ two_ne_zero]
    exact zpow_le_zpow_right₀ one_le_two (by omega)
  have hlt := lt_of_mul_lt_mul_right (hupper.trans_le hpow) hunit.le
  refine ⟨i, e, ?_, he, rfl⟩
  rw [abs_of_nonneg (by exact_mod_cast hnonneg)]
  exact_mod_cast hlt

/-- What fits in a double does so with the other sign. -/
theorem FitsDouble.neg {v : ℚ} (hv : FitsDouble v) : FitsDouble (-v) := by
  obtain ⟨i, e, hi, he, rfl⟩ := hv
  exact ⟨-i, e, by rwa [abs_neg], he, by push_cast; ring⟩

/-! ### Nearest numbers -/

/-- What one rounding may make of a number: it stays on the same side of all doubles, and moves by
at most half a unit of its last place. -/
structure IsNearest (v t : ℚ) : Prop where
  lower : ∀ g, FitsDouble g → g ≤ t → g ≤ v
  upper : ∀ g, FitsDouble g → t ≤ g → v ≤ g
  error : 2 ^ (-1022 : ℤ) ≤ |t| → |v - t| ≤ |t| / 2 ^ 53

namespace IsNearest

variable {v t : ℚ}

/-- A double is not moved. -/
theorem eq (h : IsNearest v t) (ht : FitsDouble t) : v = t :=
  le_antisymm (h.upper t ht le_rfl) (h.lower t ht le_rfl)

theorem refl (v : ℚ) : IsNearest v v where
  lower _ _ h := h
  upper _ _ h := h
  error _ := by
    rw [sub_self, abs_zero]
    positivity

/-- Rounding to the nearest is symmetric about zero. -/
theorem neg (h : IsNearest v t) : IsNearest (-v) (-t) where
  lower g hg hgt := by
    have := h.upper (-g) hg.neg (by linarith)
    linarith
  upper g hg hgt := by
    have := h.lower (-g) hg.neg (by linarith)
    linarith
  error ht := by
    rw [abs_neg] at ht ⊢
    rw [neg_sub_neg, abs_sub_comm]
    exact h.error ht

/-- With a sign. -/
theorem signed (h : IsNearest v t) (s : Sign) : IsNearest (signed s v) (ScriptOps.signed s t) := by
  cases s with
  | positive => exact h
  | negative => exact h.neg

end IsNearest

/-! ### Rounding to the grid -/

namespace Rounding

/-- Rounding to the nearest integer moves a value by at most a half. -/
theorem abs_nearestEven_sub_le {y : ℚ} (hy : 0 ≤ y) : |(nearestEven y : ℚ) - y| ≤ 1 / 2 := by
  have hfloor := Nat.floor_le hy
  have hfloor' := Nat.lt_floor_add_one y
  unfold nearestEven
  rw [abs_le]
  split
  · constructor <;> linarith
  · split
    · push_cast
      constructor <;> linarith
    · -- a half, where the parity decides
      have hhalf : y - ⌊y⌋₊ = 1 / 2 := by linarith
      rcases Nat.mod_two_eq_zero_or_one ⌊y⌋₊ with hmod | hmod
      · rw [hmod, Nat.add_zero]
        constructor <;> linarith
      · rw [hmod]
        push_cast
        constructor <;> linarith

/-- A number has 53 bits on its grid, but for the finest one. -/
theorem mul_two_zpow_grid_le {q : ℚ} (hq : 0 ≤ q) (hgrid : -1074 < grid q) :
    2 ^ 52 * 2 ^ grid q ≤ q := by
  have hpos : 0 < q := by
    rcases hq.eq_or_lt with rfl | hpos
    · exact absurd (if_pos rfl) hgrid.ne'
    · exact hpos
  have hle := Int.zpow_log_le_self (R := ℚ) Nat.one_lt_two hpos
  rw [Nat.cast_ofNat] at hle
  rw [grid_of_pos hpos] at hgrid ⊢
  have hsplit : Int.log 2 q = 52 + max (Int.log 2 q - 52) (-1074) := by omega
  rw [hsplit, zpow_add₀ two_ne_zero] at hle
  exact_mod_cast hle

/-- A number that fits is on the grid of another one, or below 53 bits on it. -/
theorem on_grid_or_lt {g : ℚ} (hg : FitsDouble g) (hnonneg : 0 ≤ g) (q : ℚ) :
    (∃ k : ℕ, g = k * 2 ^ grid q) ∨ g < 2 ^ 52 * 2 ^ grid q ∧ -1074 < grid q := by
  obtain ⟨i, e, hi, he, rfl⟩ := hg
  have hunit : (0 : ℚ) < 2 ^ e := by positivity
  have hi' : 0 ≤ i := by exact_mod_cast nonneg_of_mul_nonneg_left hnonneg hunit
  lift i to ℕ using hi'
  by_cases hle : grid q ≤ e
  · obtain ⟨k, hk⟩ : ∃ k : ℕ, e = grid q + k := ⟨(e - grid q).toNat, by omega⟩
    refine .inl ⟨i * 2 ^ k, ?_⟩
    rw [hk, zpow_add₀ two_ne_zero, zpow_natCast]
    push_cast
    ring
  · refine .inr ⟨?_, by omega⟩
    have hmantissa : (i : ℚ) < 2 ^ 53 := by
      rw [Nat.abs_cast] at hi
      exact_mod_cast hi
    calc ((i : ℤ) : ℚ) * 2 ^ e < 2 ^ 53 * 2 ^ e :=
          mul_lt_mul_of_pos_right (by exact_mod_cast hmantissa) hunit
      _ = 2 ^ 52 * 2 ^ (e + 1) := by
          rw [zpow_add_one₀ two_ne_zero]
          ring
      _ ≤ 2 ^ 52 * 2 ^ grid q :=
          mul_le_mul_of_nonneg_left (zpow_le_zpow_right₀ one_le_two (by omega)) (by positivity)

/-- Rounding to the grid gives a nearest number. -/
theorem isNearest_grid {q : ℚ} (hq : 0 ≤ q) :
    IsNearest (nearestEven (q / 2 ^ grid q) * 2 ^ grid q) q := by
  have hunit : (0 : ℚ) < 2 ^ grid q := by positivity
  have hbounds := nearestEven_grid_bounds hq
  refine ⟨fun g hg hgq => ?_, fun g hg hqg => ?_, fun htiny => ?_⟩
  · rcases lt_or_ge g 0 with hneg | hnonneg
    · exact hneg.le.trans (by positivity)
    -- a double below is a multiple of the unit, or so small that the grid starts above it
    rcases on_grid_or_lt hg hnonneg q with ⟨k, rfl⟩ | ⟨hlt, hgrid⟩
    · have hk : k ≤ nearestEven (q / 2 ^ grid q) := by
        rw [← nearestEven_natCast k]
        exact nearestEven_mono ((le_div_iff₀ hunit).2 hgq)
      exact mul_le_mul_of_nonneg_right (by exact_mod_cast hk) hunit.le
    · have hfull : 2 ^ 52 ≤ nearestEven (q / 2 ^ grid q) := hbounds.2.resolve_right hgrid.ne'
      exact hlt.le.trans (mul_le_mul_of_nonneg_right (by exact_mod_cast hfull) hunit.le)
  · rcases on_grid_or_lt hg (hq.trans hqg) q with ⟨k, rfl⟩ | ⟨hlt, hgrid⟩
    · have hk : nearestEven (q / 2 ^ grid q) ≤ k := by
        rw [← nearestEven_natCast k]
        exact nearestEven_mono ((div_le_iff₀ hunit).2 hqg)
      exact mul_le_mul_of_nonneg_right (by exact_mod_cast hk) hunit.le
    · have hfull := mul_two_zpow_grid_le hq hgrid
      linarith
  · rw [abs_of_nonneg hq] at htiny ⊢
    have hplace : 2 ^ 52 * 2 ^ grid q ≤ q := by
      rcases (le_grid q).lt_or_eq with hgrid | hgrid
      · exact mul_two_zpow_grid_le hq hgrid
      · rw [← hgrid, ← zpow_natCast, ← zpow_add₀ two_ne_zero]
        exact htiny
    have herror := abs_nearestEven_sub_le (div_nonneg hq hunit.le)
    calc |(nearestEven (q / 2 ^ grid q) : ℚ) * 2 ^ grid q - q|
        = |(nearestEven (q / 2 ^ grid q) : ℚ) - q / 2 ^ grid q| * 2 ^ grid q := by
          rw [← abs_of_pos hunit, ← abs_mul, abs_of_pos hunit, sub_mul, div_mul_cancel₀ _ hunit.ne']
      _ ≤ 1 / 2 * 2 ^ grid q := mul_le_mul_of_nonneg_right herror hunit.le
      _ ≤ q / 2 ^ 53 := by
          rw [le_div_iff₀ (by positivity)]
          linarith

/-- The double that a number is rounded to. -/
theorem isExactly_nearest (s : Sign) {q : ℚ} (hq : 0 ≤ q) (hupper : q < 2 ^ (1023 : ℤ)) :
    IsExactly (.ofModel (pack (nearest s q)))
      (signed s (nearestEven (q / 2 ^ grid q) * 2 ^ grid q)) := by
  obtain ⟨hmantissa, hn⟩ := nearestEven_grid_bounds hq
  have hgrid := le_grid q
  have hgrid' : grid q ≤ 970 := by
    by_contra hlarge
    have hfull := mul_two_zpow_grid_le hq (by omega)
    rw [← zpow_natCast, ← zpow_add₀ two_ne_zero] at hfull
    have hpow : (2 : ℚ) ^ (1023 : ℤ) ≤ 2 ^ (((52 : ℕ) : ℤ) + grid q) :=
      zpow_le_zpow_right₀ one_le_two (by omega)
    exact absurd hupper (hpow.trans hfull).not_gt
  rw [nearest]
  generalize nearestEven (q / 2 ^ grid q) = m at hmantissa hn
  rcases Nat.eq_zero_or_pos m with rfl | hpos
  · have hzero : carry s 0 (grid q) = .zero s := by
      rw [hn.resolve_left (by norm_num)]
      rfl
    have hvalue : signed s ((0 : ℕ) * 2 ^ grid q) = 0 := by cases s <;> simp [signed]
    rw [hzero, hvalue]
    exact isExactly_zero (unpack_pack_zero s)
  -- rounding up may leave `2 ^ 53`, which is carried into the exponent
  rcases hmantissa.lt_or_eq with hlt | rfl
  · have htarget : target m (grid q) = grid q := by
      have hlog := (Nat.log2_lt hpos.ne').2 hlt
      rw [target_eq]
      rcases hn with hn | hn
      · have := (Nat.le_log2 hpos.ne').2 hn
        omega
      · omega
    rw [carry_of_target_eq s hpos htarget]
    exact isExactly_pack hpos hlt hgrid (by omega) hn
  · have hvalue : (((2 ^ 53 : ℕ) : ℚ) * 2 ^ grid q) = (2 ^ 52 : ℕ) * 2 ^ (grid q + 1) := by
      rw [zpow_add_one₀ two_ne_zero]
      norm_num
      ring
    rw [carry_two_pow s hgrid, hvalue]
    exact isExactly_pack _ (by norm_num) (by omega) (by omega) (.inl le_rfl)

end Rounding

/-! ### Operations -/

/-- No overflow is near. -/
theorem lt_two_zpow_1023 {q : ℚ} (hq : q < 2 ^ 64) : q < 2 ^ (1023 : ℤ) := by
  have hpow : (2 : ℚ) ^ (64 : ℤ) ≤ 2 ^ (1023 : ℤ) := zpow_le_zpow_right₀ one_le_two (by decide)
  exact lt_of_lt_of_le (by exact_mod_cast hq) hpow

/-- The double has a value that is nearest to the number. -/
def RoundsTo (x : Float) (t : ℚ) : Prop :=
  ∃ v, IsExactly x v ∧ IsNearest v t

/-- A value below `2 ^ 1023` in magnitude rounds to the double of its nearest number. -/
theorem roundsTo_nearest (s : Sign) {q : ℚ} (hq : 0 ≤ q) (hupper : q < 2 ^ (1023 : ℤ)) :
    RoundsTo (.ofModel (pack (nearest s q))) (signed s q) :=
  ⟨_, isExactly_nearest s hq hupper, (isNearest_grid hq).signed s⟩

/-- A double is the rounding of the value it has exactly. -/
theorem IsExactly.roundsTo {x : Float} {v : ℚ} (hx : IsExactly x v) : RoundsTo x v :=
  ⟨v, hx, .refl v⟩

/-- A number that fits is met. -/
theorem RoundsTo.isExactly {x : Float} {t : ℚ} (hx : RoundsTo x t) (ht : FitsDouble t) :
    IsExactly x t := by
  obtain ⟨v, hv, hnearest⟩ := hx
  rwa [hnearest.eq ht] at hv

/-- A whole mantissa with a sign. -/
theorem roundsTo_normalize (i e : ℤ) (s : Sign) (hupper : |(i * 2 ^ e : ℚ)| < 2 ^ (1023 : ℤ)) :
    RoundsTo (.ofModel (pack (UnpackedFloat.normalize .binary64 i e s))) (i * 2 ^ e) := by
  rcases eq_or_ne i 0 with rfl | hi
  · have hvalue : (((0 : ℤ) : ℚ) * 2 ^ e) = 0 := by simp
    rw [hvalue]
    exact (isExactly_zero (unpack_pack_zero s)).roundsTo
  · have habs : ((i.natAbs : ℕ) : ℚ) = |(i : ℚ)| := by rw [Nat.cast_natAbs, Int.cast_abs]
    have hvalue : (i * 2 ^ e : ℚ) = signed (signOf i) (i.natAbs * 2 ^ e) := by
      rw [habs]
      rcases lt_or_ge i 0 with hneg | hnonneg
      · rw [signOf_eq_negative.2 hneg, signed, abs_of_neg (Int.cast_lt_zero.2 hneg)]
        ring
      · rw [signOf_eq_positive.2 hnonneg, signed, abs_of_nonneg (Int.cast_nonneg hnonneg)]
    rw [normalize_eq_round hi, round_eq_nearest _ (Int.natAbs_pos.2 hi), hvalue]
    refine roundsTo_nearest _ (by positivity) ?_
    have hunit : (0 : ℚ) < 2 ^ e := by positivity
    rwa [abs_mul, abs_of_pos hunit, ← habs] at hupper

/-- The double of an integer. -/
theorem roundsTo_floatOfInt {i : ℤ} (hupper : |(i : ℚ)| < 2 ^ (1023 : ℤ)) :
    RoundsTo (floatOfInt i) i := by
  have hrounds := roundsTo_normalize i 0 .positive (by rwa [zpow_zero, mul_one])
  rwa [zpow_zero, mul_one] at hrounds

/-- The double of an integer that fits is that integer. -/
theorem isExactly_floatOfInt {i : ℤ} (hupper : |(i : ℚ)| < 2 ^ 64) (hi : FitsDouble i) :
    IsExactly (floatOfInt i) i :=
  (roundsTo_floatOfInt (lt_two_zpow_1023 hupper)).isExactly hi

section

variable {x y : Float} {t u : ℚ}

/-- The sign can be turned. -/
theorem IsExactly.neg (hx : IsExactly x t) : IsExactly (-x) (-t) := by
  have hneg := unpack_neg x
  rcases hx.cases with ⟨rfl, s, hs⟩ | ⟨s, m, e, hm, hs, rfl⟩
  · rw [hs] at hneg
    rw [neg_zero]
    exact isExactly_zero hneg
  · rw [hs] at hneg
    have hvalue : -signed s (m * 2 ^ e) = signed (-s) (m * 2 ^ e) := by
      cases s <;> simp [signed]
    rw [hvalue]
    exact isExactly_finite hneg

/-- A difference is rounded once. -/
theorem roundsTo_sub (hx : IsExactly x t) (hy : IsExactly y u)
    (hupper : |t - u| < 2 ^ (1023 : ℤ)) : RoundsTo (x - y) (t - u) := by
  have hsub : x - y =
    .ofModel (pack (UnpackedFloat.sub .binary64 x.toModel.unpack y.toModel.unpack)) := rfl
  rcases hy.cases with ⟨rfl, s', hs'⟩ | ⟨s', n, i, hn, hs', hu⟩
  · rw [sub_zero]
    rcases hx.cases with ⟨rfl, s, hs⟩ | ⟨s, m, e, hm, hs, rfl⟩
    · have hzero : ∃ s'', UnpackedFloat.sub .binary64 (.zero s) (.zero s') = .zero s'' := by
        cases s <;> cases s' <;> exact ⟨_, rfl⟩
      obtain ⟨s'', hzero⟩ := hzero
      rw [hsub, hs, hs', hzero]
      exact (isExactly_zero (unpack_pack_zero s'')).roundsTo
    · have hself : x - y = x := by
        rw [hsub, hs, hs']
        change Float.ofModel (pack (.finite s m e hm)) = x
        rw [← hs, pack_unpack]
      rw [hself]
      exact hx.roundsTo
  · rcases hx.cases with ⟨rfl, s, hs⟩ | ⟨s, m, e, hm, hs, ht⟩
    · have hself : x - y = -y := by
        rw [hsub, hs, hs']
        change Float.ofModel (pack (.finite (-s') n i hn)) = .ofModel (pack y.toModel.unpack.neg)
        rw [hs']
        rfl
      rw [hself, zero_sub]
      exact hy.neg.roundsTo
    · -- both on the finer of the two grids
      obtain ⟨c, j, k, hc, rfl, rfl⟩ : ∃ (c : ℤ) (j k : ℕ), min e i = c ∧ e = c + j ∧ i = c + k :=
        ⟨min e i, (e - min e i).toNat, (i - min e i).toNat, rfl, by omega, by omega⟩
      have hdifference : UnpackedFloat.sub .binary64 (.finite s m (c + j) hm)
          (.finite s' n (c + k) hn) = UnpackedFloat.normalize .binary64
            (s.apply (m * 2 ^ j : ℕ) - s'.apply (n * 2 ^ k : ℕ)) c .positive := by
        simp only [UnpackedFloat.sub, decreaseExponent, hc, add_sub_cancel_left,
          Int.toNat_natCast, Nat.shiftLeft_eq]
      have hvalue : t - u =
          (s.apply (m * 2 ^ j : ℕ) - s'.apply (n * 2 ^ k : ℕ) : ℤ) * 2 ^ c := by
        rw [ht, hu, zpow_add₀ two_ne_zero, zpow_add₀ two_ne_zero, zpow_natCast, zpow_natCast]
        cases s <;> cases s' <;> simp [signed, Sign.apply] <;> ring
      rw [hsub, hs, hs', hdifference, hvalue]
      exact roundsTo_normalize _ _ _ (hvalue ▸ hupper)

/-- A quotient is rounded once. -/
theorem roundsTo_div (hx : IsExactly x t) (hy : IsExactly y u) (hu : u ≠ 0)
    (hupper : |t / u| < 2 ^ (1023 : ℤ)) : RoundsTo (x / y) (t / u) := by
  have hdiv : x / y =
    .ofModel (pack (UnpackedFloat.div .binary64 x.toModel.unpack y.toModel.unpack)) := rfl
  rcases hy.cases with ⟨rfl, -⟩ | ⟨s', n, i, hn, hs', rfl⟩
  · exact absurd rfl hu
  rcases hx.cases with ⟨rfl, s, hs⟩ | ⟨s, m, e, hm, hs, rfl⟩
  · rw [hdiv, hs, hs', zero_div]
    exact (isExactly_zero (unpack_pack_zero _)).roundsTo
  · have hvalue : signed s (m * 2 ^ e) / signed s' (n * 2 ^ i) =
        signed (s / s') (m * 2 ^ e / (n * 2 ^ i)) := by
      cases s <;> cases s'
      · rw [signed, signed, neg_div_neg_eq]
        rfl
      · rw [signed, signed, neg_div]
        rfl
      · rw [signed, signed, div_neg]
        rfl
      · rfl
    have hpos : (0 : ℚ) ≤ m * 2 ^ e / (n * 2 ^ i) := by positivity
    have habs : |signed (s / s') (m * 2 ^ e / (n * 2 ^ i))| = m * 2 ^ e / (n * 2 ^ i) := by
      cases s / s' <;> simp [signed, abs_of_nonneg hpos]
    rw [hdiv, hs, hs', div_eq_nearest, hvalue]
    rw [hvalue, habs] at hupper
    exact roundsTo_nearest _ hpos hupper

end

/-! ### Floors -/

namespace Binary

/-- A binary number is whole exactly if truncation keeps its magnitude. -/
theorem isWhole_iff (b : Binary) : b.IsWhole ↔ (b.wholeMagnitude : ℚ) = b.magnitude := by
  unfold IsWhole wholeMagnitude magnitude
  split
  · next hexponent =>
    obtain ⟨k, hk⟩ := Int.eq_ofNat_of_zero_le hexponent
    rw [hk, zpow_natCast, Int.toNat_natCast]
    simp
  · next hexponent =>
    obtain ⟨k, hk⟩ : ∃ k : ℕ, b.exponent = -k := ⟨(-b.exponent).toNat, by omega⟩
    have hunit : (0 : ℚ) < 2 ^ k := by positivity
    have hsplit := Nat.div_add_mod b.mantissa (2 ^ k)
    have hcast : (b.mantissa : ℚ) =
        2 ^ k * (b.mantissa / 2 ^ k : ℕ) + (b.mantissa % 2 ^ k : ℕ) := by
      exact_mod_cast hsplit.symm
    rw [hk, zpow_neg, zpow_natCast, neg_neg, Int.toNat_natCast, ← div_eq_mul_inv,
      eq_div_iff hunit.ne', or_iff_right (by omega), ← Nat.cast_eq_zero (R := ℚ)]
    constructor
    · intro hrest
      linarith
    · intro hwhole
      linarith

/-- The floor in integer arithmetic is that of the exact value. -/
theorem floor_eq (b : Binary) : b.floor = ⌊b.value⌋ := by
  have hwhole := b.wholeMagnitude_eq_floor
  have hiff := b.isWhole_iff
  rw [floor, truncate, value]
  cases b.negative with
  | false => simpa using hwhole
  | true =>
    have hle := Int.floor_le b.magnitude
    have hlt := Int.lt_floor_add_one b.magnitude
    rw [← hwhole, Int.cast_natCast] at hle hlt
    refine (Int.floor_eq_iff.2 ?_).symm
    by_cases h : b.IsWhole
    · have hvalue := hiff.1 h
      simp [h, ← hvalue]
    · have hvalue : (b.wholeMagnitude : ℚ) ≠ b.magnitude := h ∘ hiff.2
      have hlt' := hle.lt_of_ne hvalue
      simp only [h, decide_false, Bool.not_false, Bool.and_self, if_true]
      push_cast
      constructor <;> linarith

end Binary

/-- The floor of a double is that of the value it has. -/
theorem IsExactly.floorInt_eq {x : Float} {v : ℚ} (hx : IsExactly x v) : floorInt x = ⌊v⌋ := by
  obtain ⟨b, hb, rfl⟩ := hx
  rw [floorInt, hb]
  exact b.floor_eq

/-- The finite doubles are those that are exactly a number. -/
theorem isFinite_iff {x : Float} : x.isFinite = true ↔ ∃ v, IsExactly x v := by
  rw [isFinite_eq, Option.isSome_iff_exists]
  constructor
  · rintro ⟨b, hb⟩
    exact ⟨b.value, b, hb, rfl⟩
  · rintro ⟨v, b, hb, -⟩
    exact ⟨b, hb⟩

/-- A double below `2 ^ (53 + k)` may have places finer than `2 ^ k`, but no coarser ones. -/
theorem IsExactly.exists_unit_le {x : Float} {t : ℚ} {k : ℕ} (hx : IsExactly x t)
    (hupper : |t| < 2 ^ (53 + k)) :
    ∃ i e : ℤ, |i| < 2 ^ 53 ∧ -1074 ≤ e ∧ e ≤ k ∧ t = i * 2 ^ e := by
  obtain ⟨i, e, hi, he, rfl, hplace⟩ := hx.exists_unit
  refine ⟨i, e, hi, he, ?_, rfl⟩
  rcases hplace with hfull | rfl
  · have hunit : (0 : ℚ) < 2 ^ e := by positivity
    have hfull' : (2 : ℚ) ^ 52 ≤ |(i : ℚ)| := by exact_mod_cast hfull
    have hpow : (2 : ℚ) ^ (52 + e) < 2 ^ ((53 + k : ℕ) : ℤ) := by
      rw [zpow_add₀ two_ne_zero, zpow_natCast]
      rw [abs_mul, abs_of_pos hunit] at hupper
      exact (mul_le_mul_of_nonneg_right (by exact_mod_cast hfull') hunit.le).trans_lt hupper
    have hlt := (zpow_lt_zpow_iff_right₀ one_lt_two).1 hpow
    omega
  · omega

/-- Rounding does not go below an integer. -/
theorem IsNearest.floor_eq {v t : ℚ} (hv : IsNearest v t) (ht : |t| < 2 ^ 52)
    (hnext : v < ⌊t⌋ + 1) : ⌊v⌋ = ⌊t⌋ := by
  have hfloor := Int.floor_le t
  have hnext' := Int.lt_floor_add_one t
  refine Int.floor_eq_iff.2 ⟨hv.lower _ (fitsDouble_intCast ?_) hfloor, hnext⟩
  rw [abs_lt] at ht ⊢
  have hlower : ((-2 ^ 53 : ℤ) : ℚ) < ⌊t⌋ := by
    push_cast
    linarith
  have hupper : (⌊t⌋ : ℚ) < ((2 ^ 53 : ℤ) : ℚ) := by
    push_cast
    linarith
  exact ⟨by exact_mod_cast hlower, by exact_mod_cast hupper⟩

/-- A nearest quotient has the floor of the quotient, when the divisor is a multiple of `2 ^ k` and
the dividend is below `2 ^ (53 + k)`: a quotient that is below an integer is below it by a unit of
the dividend at least, and is rounded by less. But a tiny negative one is rounded up to zero. -/
theorem IsNearest.floor_div {x : Float} {t v : ℚ} {c k : ℕ} (hx : IsExactly x t) (hc : 0 < c)
    (hv : IsNearest v (t / (c * 2 ^ k : ℕ))) (hupper : |t| < 2 ^ (53 + k))
    (hquotient : |t / (c * 2 ^ k : ℕ)| < 2 ^ 52)
    (htiny : 0 ≤ t ∨ 2 ^ (-1022 : ℤ) ≤ |t / (c * 2 ^ k : ℕ)|) :
    ⌊v⌋ = ⌊t / (c * 2 ^ k : ℕ)⌋ := by
  obtain ⟨i, e, hi, -, hle, ht⟩ := hx.exists_unit_le hupper
  obtain ⟨j, hj⟩ : ∃ j : ℕ, (k : ℤ) = e + j := ⟨(k - e).toNat, by omega⟩
  have hunit : (0 : ℚ) < 2 ^ e := by positivity
  have hdivisor : (0 : ℚ) < (c * 2 ^ k : ℕ) := by positivity
  have hdivisor' : ((c * 2 ^ k : ℕ) : ℚ) = c * 2 ^ j * 2 ^ e := by
    push_cast
    rw [← zpow_natCast, hj, zpow_add₀ two_ne_zero, zpow_natCast]
    ring
  have hnext := Int.lt_floor_add_one (t / (c * 2 ^ k : ℕ))
  refine hv.floor_eq hquotient ?_
  generalize ⌊t / (c * 2 ^ k : ℕ)⌋ = n at hnext
  -- the quotient is at least a unit below the next integer, and rounding moves it by less
  rcases le_or_gt (2 ^ (-1022 : ℤ)) |t / (c * 2 ^ k : ℕ)| with hnormal | hsmall
  · have hunits : t + 2 ^ e ≤ (n + 1) * (c * 2 ^ k : ℕ) := by
      rw [div_lt_iff₀ hdivisor, hdivisor', ← mul_assoc, ht] at hnext
      have hlt : i < (n + 1) * (c * 2 ^ j) := by
        exact_mod_cast lt_of_mul_lt_mul_right hnext hunit.le
      have hle : (i : ℚ) + 1 ≤ (n + 1) * (c * 2 ^ j) := by exact_mod_cast hlt
      rw [hdivisor', ← mul_assoc, ht, ← add_one_mul]
      exact mul_le_mul_of_nonneg_right hle hunit.le
    have hmoved : |t / (c * 2 ^ k : ℕ)| / 2 ^ 53 < 2 ^ e / (c * 2 ^ k : ℕ) := by
      have hi' : |(i : ℚ)| < 2 ^ 53 := by exact_mod_cast hi
      rw [abs_div, abs_of_pos hdivisor, div_right_comm]
      refine div_lt_div_of_pos_right ?_ hdivisor
      rw [div_lt_iff₀ (by positivity), ht, abs_mul, abs_of_pos hunit, mul_comm]
      exact mul_lt_mul_of_pos_left hi' hunit
    have herror := (abs_le.1 (hv.error hnormal)).2
    calc v ≤ t / (c * 2 ^ k : ℕ) + |t / (c * 2 ^ k : ℕ)| / 2 ^ 53 := by linarith
      _ < (t + 2 ^ e) / (c * 2 ^ k : ℕ) := by
          rw [add_div]
          linarith
      _ ≤ n + 1 := (div_le_iff₀ hdivisor).2 hunits
  · have hnonneg := div_nonneg (htiny.resolve_right hsmall.not_ge) hdivisor.le
    have hhalf : |t / (c * 2 ^ k : ℕ)| ≤ 1 / 2 :=
      hsmall.le.trans ((zpow_le_zpow_right₀ one_le_two (by decide : (-1022 : ℤ) ≤ -1)).trans_eq
        (by norm_num))
    have hv' := hv.upper (1 / 2) ⟨1, -1, by norm_num, by norm_num, by norm_num⟩
      ((le_abs_self _).trans hhalf)
    have hn : (0 : ℚ) < n + 1 := hnonneg.trans_lt hnext
    have hn' : (1 : ℚ) ≤ n + 1 := by
      exact_mod_cast (show (0 : ℤ) < n + 1 by exact_mod_cast hn)
    linarith

/-- So the floor of a rounded quotient is exact. -/
theorem IsExactly.floorInt_div {x y : Float} {t : ℚ} {c k : ℕ} (hx : IsExactly x t)
    (hy : IsExactly y (c * 2 ^ k : ℕ)) (hc : 2 ≤ c) (hupper : |t| < 2 ^ (53 + k))
    (htiny : 0 ≤ t ∨ 2 ^ (-1022 : ℤ) ≤ |t / (c * 2 ^ k : ℕ)|) :
    floorInt (x / y) = ⌊t / (c * 2 ^ k : ℕ)⌋ := by
  have hdivisor : (0 : ℚ) < (c * 2 ^ k : ℕ) := by positivity
  have hquotient : |t / (c * 2 ^ k : ℕ)| < 2 ^ 52 := by
    have hc' : (2 : ℚ) ≤ c := by exact_mod_cast hc
    rw [abs_div, abs_of_pos hdivisor, div_lt_iff₀ hdivisor]
    refine hupper.trans_le ?_
    rw [pow_add, pow_succ, Nat.cast_mul, Nat.cast_pow, Nat.cast_ofNat, mul_assoc]
    gcongr
  obtain ⟨v, hv, hnearest⟩ := roundsTo_div hx hy hdivisor.ne'
    (lt_two_zpow_1023 (hquotient.trans (by norm_num)))
  rw [hv.floorInt_eq]
  exact hnearest.floor_div hx (by omega) hupper hquotient htiny

end ScriptOps
