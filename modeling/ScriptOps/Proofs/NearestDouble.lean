import ScriptOps.Proofs.DoubleOrder

/-!
# The nearest double

Rounding gives the double nearest to the exact result, ties to even. The bits that are dropped leave
two bits behind, and these are enough to tell on which side of a half the fraction lies, so rounding
a mantissa is rounding a rational, `Rounding.nearestEven`. `doubleOf` rounds a rational that is not
negative: it keeps the order, gives back every double, and is what sums and products of doubles are.
-/

namespace ScriptOps

open Float.Model Float.Model.UnpackedFloat

namespace Rounding

/-! ### The nearest natural number -/

/-- The natural number nearest to a rational that is not negative. A half goes to the even one. -/
def nearestEven (y : ℚ) : ℕ :=
  if y - ⌊y⌋₊ < 1 / 2 then ⌊y⌋₊
  else if 1 / 2 < y - ⌊y⌋₊ then ⌊y⌋₊ + 1
  else ⌊y⌋₊ + ⌊y⌋₊ % 2

/-- The whole part and the fraction decide. -/
theorem nearestEven_add (m : ℕ) {f : ℚ} (hf : 0 ≤ f) (hf' : f < 1) :
    nearestEven (m + f) = if f < 1 / 2 then m else if 1 / 2 < f then m + 1 else m + m % 2 := by
  have hfloor : ⌊(m : ℚ) + f⌋₊ = m := by
    rw [Nat.floor_eq_iff (by positivity)]
    exact ⟨by linarith, by linarith⟩
  rw [nearestEven, hfloor, add_sub_cancel_left]

/-- A natural number is its own nearest one. -/
theorem nearestEven_natCast (m : ℕ) : nearestEven m = m := by
  have hadd := nearestEven_add m (f := 0) le_rfl (by norm_num)
  rwa [add_zero, if_pos (by norm_num)] at hadd

/-- The nearest number is at least the number rounded down. -/
theorem floor_le_nearestEven (y : ℚ) : ⌊y⌋₊ ≤ nearestEven y := by
  unfold nearestEven
  split_ifs <;> omega

/-- It is at most one more. -/
theorem nearestEven_le_floor_add_one (y : ℚ) : nearestEven y ≤ ⌊y⌋₊ + 1 := by
  unfold nearestEven
  split_ifs <;> omega

/-- Larger numbers have larger nearest ones. -/
theorem nearestEven_mono {y z : ℚ} (hyz : y ≤ z) : nearestEven y ≤ nearestEven z := by
  have hfloor : ⌊y⌋₊ ≤ ⌊z⌋₊ := Nat.floor_mono hyz
  rcases hfloor.lt_or_eq with hlt | heq
  · have hupper := nearestEven_le_floor_add_one y
    have hlower := floor_le_nearestEven z
    omega
  · unfold nearestEven
    rw [heq]
    -- with one whole part the fractions are in order, and so are the three cases
    have hfraction : y - ⌊z⌋₊ ≤ z - ⌊z⌋₊ := by linarith
    split_ifs <;> first | omega | linarith

/-! ### What the dropped bits tell -/

/-- An extended mantissa keeps of a number its whole part, whether the fraction reaches a half, and
whether it is something other than nothing and a half. -/
def Tracks (em : ExtendedMantissa) (y : ℚ) : Prop :=
  ∃ f : ℚ, 0 ≤ f ∧ f < 1 ∧ y = em.mantissa + f ∧
    (em.roundBit = true ↔ 1 / 2 ≤ f) ∧ (em.stickyBit = true ↔ f ≠ 0 ∧ f ≠ 1 / 2)

/-- That is enough to round. -/
theorem Tracks.roundedMantissa_eq {em : ExtendedMantissa} {y : ℚ} (h : Tracks em y) :
    em.roundedMantissa = nearestEven y := by
  obtain ⟨f, hf, hf', rfl, hround, hsticky⟩ := h
  obtain ⟨m, round, sticky⟩ := em
  rw [nearestEven_add m hf hf']
  cases round with
  | false =>
    have hlt : f < 1 / 2 := not_le.1 fun hle => nomatch hround.2 hle
    rw [if_pos hlt]
    cases sticky <;> rfl
  | true =>
    have hge : 1 / 2 ≤ f := hround.1 rfl
    rw [if_neg hge.not_gt]
    cases sticky with
    | false =>
      have hhalf : f = 1 / 2 := by
        by_contra hne
        nomatch hsticky.2 ⟨by linarith, hne⟩
      rw [if_neg hhalf.not_gt]
      rfl
    | true =>
      rw [if_pos (lt_of_le_of_ne hge (hsticky.1 rfl).2.symm)]
      rfl

/-- A number without a fraction. -/
theorem tracks_natCast (m : ℕ) : Tracks ⟨m, false, false⟩ m :=
  ⟨0, le_rfl, by norm_num, by simp, by norm_num, by norm_num⟩

/-- Shifting by one bit halves the number. -/
theorem Tracks.shiftRightOne {em : ExtendedMantissa} {y : ℚ} (h : Tracks em y) :
    Tracks em.shiftRightOne (y / 2) := by
  obtain ⟨f, hf, hf', rfl, hround, hsticky⟩ := h
  obtain ⟨m, round, sticky⟩ := em
  have hsplit : (m : ℚ) = 2 * (m / 2 : ℕ) + (m % 2 : ℕ) := by
    exact_mod_cast (Nat.div_add_mod m 2).symm
  dsimp only at hround hsticky hsplit ⊢
  have hzero : (round || sticky) = true ↔ f ≠ 0 := by
    rw [Bool.or_eq_true, hround, hsticky]
    constructor
    · rintro (hge | ⟨hne, -⟩)
      · linarith
      · exact hne
    · intro hne
      by_cases hhalf : f = 1 / 2
      · exact .inl hhalf.ge
      · exact .inr ⟨hne, hhalf⟩
  rcases Nat.mod_two_eq_zero_or_one m with hm | hm
  · rw [hm, Nat.cast_zero] at hsplit
    refine ⟨f / 2, by linarith, by linarith,
      by simp only [ExtendedMantissa.shiftRightOne]; linarith, ?_, ?_⟩
    · simp only [ExtendedMantissa.shiftRightOne, hm]
      refine iff_of_false Bool.false_ne_true ?_
      linarith
    · simp only [ExtendedMantissa.shiftRightOne, hzero]
      constructor
      · intro hne
        refine ⟨by simpa using hne, ?_⟩
        linarith
      · rintro ⟨hne, -⟩
        simpa using hne
  · rw [hm, Nat.cast_one] at hsplit
    refine ⟨(f + 1) / 2, by linarith, by linarith,
      by simp only [ExtendedMantissa.shiftRightOne]; linarith, ?_, ?_⟩
    · simp only [ExtendedMantissa.shiftRightOne, hm]
      refine iff_of_true rfl ?_
      linarith
    · simp only [ExtendedMantissa.shiftRightOne, hzero]
      constructor
      · intro hne
        refine ⟨by linarith, fun hhalf => hne (by linarith)⟩
      · rintro ⟨-, hne⟩ rfl
        exact hne (by norm_num)

/-- Shifting by `n` bits divides the number by `2 ^ n`. -/
theorem Tracks.shiftRight {em : ExtendedMantissa} {y : ℚ} (h : Tracks em y) (n : ℕ) :
    Tracks (em >>> n) (y / 2 ^ n) := by
  induction n with
  | zero => simpa [shiftRight_zero] using h
  | succ n ih =>
    rw [shiftRight_succ, pow_succ, ← div_div]
    exact ih.shiftRightOne

/-- The accuracy of a quotient of natural numbers tells its fraction. -/
theorem tracks_div (n : ℕ) {d : ℕ} (hd : 0 < d) :
    Tracks (.ofMantissaAndAccuracy (n / d) (accuracyOfFraction (n % d) d)) (n / d) := by
  have hdpos : (0 : ℚ) < d := Nat.cast_pos.2 hd
  have hsplit : (n : ℚ) / d = (n / d : ℕ) + (n % d : ℕ) / d := by
    have hnat : (n : ℚ) = (n / d : ℕ) * d + (n % d : ℕ) := by
      exact_mod_cast (Nat.div_add_mod' n d).symm
    rw [div_eq_iff hdpos.ne', add_mul, div_mul_cancel₀ _ hdpos.ne']
    exact hnat
  have hlt : ((n % d : ℕ) : ℚ) / d < 1 := by
    rw [div_lt_one hdpos]
    exact_mod_cast Nat.mod_lt n hd
  have hhalf_le : 1 / 2 ≤ ((n % d : ℕ) : ℚ) / d ↔ d ≤ 2 * (n % d) := by
    rw [div_le_div_iff₀ two_pos hdpos, one_mul, mul_comm _ (2 : ℚ)]
    exact_mod_cast Iff.rfl
  have hhalf_eq : ((n % d : ℕ) : ℚ) / d = 1 / 2 ↔ 2 * (n % d) = d := by
    rw [div_eq_div_iff hdpos.ne' two_ne_zero, one_mul, mul_comm _ (2 : ℚ)]
    exact_mod_cast Iff.rfl
  have hzero : ((n % d : ℕ) : ℚ) / d = 0 ↔ n % d = 0 := by
    rw [div_eq_zero_iff, or_iff_left hdpos.ne', Nat.cast_eq_zero]
  rw [hsplit]
  unfold accuracyOfFraction
  split
  · next hmod =>
    refine ⟨((n % d : ℕ) : ℚ) / d, by positivity, hlt, rfl, iff_of_false nofun ?_,
      iff_of_false nofun fun h => h.1 (hzero.2 hmod)⟩
    rw [hhalf_le]
    omega
  · next hmod =>
    -- twice the remainder compares with the divisor as the fraction does with a half
    rcases Nat.lt_trichotomy (2 * (n % d)) d with h | h | h
    · rw [Nat.compare_eq_lt.2 h]
      exact ⟨_, by positivity, hlt, rfl, iff_of_false nofun fun hle => h.not_ge (hhalf_le.1 hle),
        iff_of_true rfl ⟨fun h0 => hmod (hzero.1 h0), fun hhalf => h.ne (hhalf_eq.1 hhalf)⟩⟩
    · rw [Nat.compare_eq_eq.2 h]
      exact ⟨_, by positivity, hlt, rfl, iff_of_true rfl (hhalf_le.2 h.ge),
        iff_of_false nofun fun hne => hne.2 (hhalf_eq.2 h)⟩
    · rw [Nat.compare_eq_gt.2 h]
      exact ⟨_, by positivity, hlt, rfl, iff_of_true rfl (hhalf_le.2 h.le),
        iff_of_true rfl ⟨fun h0 => hmod (hzero.1 h0), fun hhalf => h.ne' (hhalf_eq.1 hhalf)⟩⟩

/-! ### The nearest double -/

/-- The exponent of the double for a number that is not negative. -/
def grid (x : ℚ) : ℤ :=
  if x = 0 then -1074 else max (Int.log 2 x - 52) (-1074)

/-- The grid of a positive number has 53 digits, unless it is subnormal. -/
theorem grid_of_pos {x : ℚ} (hx : 0 < x) : grid x = max (Int.log 2 x - 52) (-1074) :=
  if_neg hx.ne'

/-- No grid is finer than the subnormal one. -/
theorem le_grid (x : ℚ) : -1074 ≤ grid x := by
  unfold grid
  split <;> omega

/-- Greater numbers are on coarser grids. -/
theorem grid_mono {x y : ℚ} (hx : 0 ≤ x) (hxy : x ≤ y) : grid x ≤ grid y := by
  rcases hx.eq_or_lt with rfl | hpos
  · rw [grid, if_pos rfl]
    exact le_grid y
  · have hlog := Int.log_mono_right (b := 2) hpos hxy
    rw [grid_of_pos hpos, grid_of_pos (hpos.trans_le hxy)]
    omega

/-- The double nearest to a number that is not negative, with a sign. -/
def nearest (s : Sign) (x : ℚ) : UnpackedFloat :=
  carry s (nearestEven (x / 2 ^ grid x)) (grid x)

/-- A number is at least the power of two of its leading bit. -/
theorem two_zpow_log2_le {m : ℕ} (hm : 0 < m) : (2 : ℚ) ^ (m.log2 : ℤ) ≤ m := by
  rw [zpow_natCast]
  exact_mod_cast Nat.log2_self_le hm.ne'

/-- It lies below the next power of two. -/
theorem add_one_le_two_zpow_log2 (m : ℕ) : (m + 1 : ℚ) ≤ 2 ^ ((m.log2 : ℤ) + 1) := by
  exact_mod_cast Nat.lt_log2_self (n := m)

/-- The exponent is that of the whole part in any small enough unit. -/
theorem target_eq_grid {m : ℕ} (hm : 0 < m) {e : ℤ} {x : ℚ} (hlower : m ≤ x / 2 ^ e)
    (hupper : x / 2 ^ e < m + 1) : target m e = grid x := by
  have hunit : (0 : ℚ) < 2 ^ e := by positivity
  rw [le_div_iff₀ hunit] at hlower
  rw [div_lt_iff₀ hunit] at hupper
  have hx : 0 < x := (mul_pos (Nat.cast_pos.2 hm) hunit).trans_le hlower
  have hlog : Int.log 2 x = m.log2 + e := by
    apply le_antisymm
    · rw [← Int.lt_add_one_iff, ← Int.lt_zpow_iff_log_lt Nat.one_lt_two hx, Nat.cast_ofNat,
        add_right_comm, zpow_add₀ two_ne_zero]
      exact hupper.trans_le (mul_le_mul_of_nonneg_right (add_one_le_two_zpow_log2 m) hunit.le)
    · rw [← Int.zpow_le_iff_le_log Nat.one_lt_two hx, Nat.cast_ofNat, zpow_add₀ two_ne_zero]
      exact (mul_le_mul_of_nonneg_right (two_zpow_log2_le hm) hunit.le).trans hlower
  rw [target_eq, grid_of_pos hx, hlog]

/-- Rounding gives the nearest double of the number that is tracked. -/
theorem roundWithAccuracy_eq_nearest (s : Sign) {m : ℕ} {e : ℤ} {a : Accuracy} {x : ℚ}
    (htracks : Tracks (.ofMantissaAndAccuracy m a) (x / 2 ^ e)) (hgrid : target m e = grid x)
    (he : e ≤ grid x) : roundWithAccuracy .binary64 s m e a = nearest s x := by
  obtain ⟨k, hk⟩ : ∃ k : ℕ, grid x = e + k := ⟨(grid x - e).toNat, by omega⟩
  have hshift : shiftToTargetExponent .binary64 m e a =
      (ExtendedMantissa.ofMantissaAndAccuracy m a >>> k, grid x) := by
    have hamount : (target m e - e).toNat = k := by omega
    change (ExtendedMantissa.ofMantissaAndAccuracy m a >>> (target m e - e).toNat,
      e + ((target m e - e).toNat : ℤ)) = _
    rw [hamount, hk]
  have hrounded := (htracks.shiftRight k).roundedMantissa_eq
  rw [div_div, ← zpow_natCast, ← zpow_add₀ two_ne_zero, ← hk] at hrounded
  change carry s (shiftToTargetExponent .binary64 m e a).1.roundedMantissa
    (shiftToTargetExponent .binary64 m e a).2 = _
  rw [hshift, nearest]
  dsimp only
  rw [hrounded]

/-- Rounding a mantissa and an exponent. -/
theorem round_eq_nearest (s : Sign) {m : ℕ} (hm : 0 < m) (e : ℤ) :
    round .binary64 s m e = nearest s (m * 2 ^ e) := by
  obtain ⟨k, hk⟩ : ∃ k : ℕ, e - k ≤ target m e := ⟨(e - target m e).toNat, by omega⟩
  have hpos : 0 < m * 2 ^ k := Nat.mul_pos hm (Nat.two_pow_pos k)
  have hscaled : (m * 2 ^ e : ℚ) / 2 ^ (e - k) = (m * 2 ^ k : ℕ) := by
    rw [mul_div_assoc, ← zpow_sub₀ two_ne_zero, sub_sub_cancel, zpow_natCast]
    push_cast
    rfl
  have hgrid : target (m * 2 ^ k) (e - k) = grid (m * 2 ^ e) :=
    target_eq_grid hpos hscaled.ge (by rw [hscaled]; linarith)
  rw [round_eq_roundWithAccuracy s hm hk]
  refine roundWithAccuracy_eq_nearest s ?_ hgrid ?_
  · rw [hscaled]
    exact tracks_natCast _
  · rw [← hgrid, target_mul_pow hm]
    exact hk

/-- The nearest double of zero is zero. -/
theorem nearest_zero (s : Sign) : nearest s 0 = .zero s := by
  have hgrid : grid 0 = -1074 := if_pos rfl
  have hzero : nearestEven 0 = 0 := nearestEven_natCast 0
  rw [nearest, zero_div, hgrid, hzero]
  rfl

/-- Where a mantissa that fits comes to lie, be it in the range of finite doubles or not. -/
theorem rank_pack_finite {m : ℕ} {e : ℤ} (hm : 0 < m) (hupper : m < 2 ^ 53) (he : -1074 ≤ e)
    (hn : 2 ^ 52 ≤ m ∨ e = -1074) :
    let f := (pack (.finite .positive m e hm)).unpack
    IsMagnitude f ∧ rank f = min ((e + 1074) * 2 ^ 52 + m) (2047 * 2 ^ 52) := by
  intro f
  by_cases hrange : e ≤ 971
  · have hmagnitude : IsMagnitude (.finite .positive m e hm) := ⟨rfl, he, hrange, hupper, hn⟩
    have hf : f = .finite .positive m e hm := hmagnitude.unpack_pack
    rw [hf]
    refine ⟨hmagnitude, ?_⟩
    simp only [rank]
    omega
  · have hmagnitude : IsMagnitude (.infinity .positive) := rfl
    have hf : f = .infinity .positive := by
      simp only [f, pack_of_large .positive hm (not_le.1 hrange)]
      exact hmagnitude.unpack_pack
    rw [hf]
    refine ⟨hmagnitude, ?_⟩
    simp only [rank]
    omega

/-- Where a rounded mantissa comes to lie. One bit too many is the next exponent, so it needs no
case of its own. -/
theorem rank_carry {q : ℕ} {t : ℤ} (hq : q ≤ 2 ^ 53) (ht : -1074 ≤ t)
    (hn : 2 ^ 52 ≤ q ∨ t = -1074) :
    let f := (pack (carry .positive q t)).unpack
    IsMagnitude f ∧ rank f = min ((t + 1074) * 2 ^ 52 + q) (2047 * 2 ^ 52) := by
  rcases Nat.eq_zero_or_pos q with rfl | hpos
  · obtain rfl : t = -1074 := hn.resolve_left (by norm_num)
    have hcarry : carry .positive 0 (-1074) = .zero .positive := rfl
    rw [hcarry, unpack_pack_zero]
    exact ⟨rfl, rfl⟩
  -- `2 ^ 53` is `2 ^ 52` with the next exponent, and has the next rank
  rcases hq.lt_or_eq with hlt | rfl
  · have hlog : q.log2 ≤ 52 := by
      have := (Nat.log2_lt hpos.ne').2 hlt
      omega
    have htarget : target q t = t := by
      rw [target_eq]
      rcases hn with hn | rfl
      · have := (Nat.le_log2 hpos.ne').2 hn
        omega
      · omega
    rw [carry_of_target_eq .positive hpos htarget]
    exact rank_pack_finite hpos hlt ht hn
  · rw [carry_two_pow .positive ht]
    have hnext := rank_pack_finite (m := 2 ^ 52) (e := t + 1) (by decide) (by decide) (by omega)
      (.inl le_rfl)
    refine ⟨hnext.1, hnext.2.trans ?_⟩
    congr 1
    push_cast
    ring

/-- The mantissa that is rounded has 53 bits, but for the least exponent. -/
theorem nearestEven_grid_bounds {x : ℚ} (hx : 0 ≤ x) :
    nearestEven (x / 2 ^ grid x) ≤ 2 ^ 53 ∧
      (2 ^ 52 ≤ nearestEven (x / 2 ^ grid x) ∨ grid x = -1074) := by
  rcases hx.eq_or_lt with rfl | hpos
  · have hzero : nearestEven 0 = 0 := nearestEven_natCast 0
    rw [zero_div, hzero]
    exact ⟨Nat.zero_le _, .inr (if_pos rfl)⟩
  have hunit : (0 : ℚ) < 2 ^ grid x := by positivity
  have hupper := Int.lt_zpow_succ_log_self (R := ℚ) Nat.one_lt_two x
  have hlower := Int.zpow_log_le_self (R := ℚ) Nat.one_lt_two hpos
  rw [Nat.cast_ofNat] at hupper hlower
  -- above by the next power of two, below by the last one unless the grid is the finest
  constructor
  · have hle : x / 2 ^ grid x ≤ (2 ^ 53 : ℕ) := by
      rw [div_le_iff₀ hunit]
      calc x ≤ 2 ^ (Int.log 2 x + 1) := hupper.le
        _ ≤ 2 ^ (53 + grid x) := by
            refine zpow_le_zpow_right₀ one_le_two ?_
            rw [grid_of_pos hpos]
            omega
        _ = (2 ^ 53 : ℕ) * 2 ^ grid x := by
            rw [zpow_add₀ two_ne_zero]
            norm_num
    exact (nearestEven_mono hle).trans (nearestEven_natCast _).le
  · by_cases hgrid : grid x = -1074
    · exact .inr hgrid
    · have hle : ((2 ^ 52 : ℕ) : ℚ) ≤ x / 2 ^ grid x := by
        rw [le_div_iff₀ hunit]
        calc ((2 ^ 52 : ℕ) : ℚ) * 2 ^ grid x = 2 ^ (52 + grid x) := by
              rw [zpow_add₀ two_ne_zero]
              norm_num
          _ ≤ 2 ^ Int.log 2 x := by
              refine zpow_le_zpow_right₀ one_le_two ?_
              rw [grid_of_pos hpos] at hgrid ⊢
              omega
          _ ≤ x := hlower
      exact .inl ((nearestEven_natCast _).ge.trans (nearestEven_mono hle))

end Rounding

/-! ### The double of a rational -/

open Rounding

/-- The double nearest to a rational that is not negative; of two equally near ones that with the
even mantissa. Beyond the range of finite doubles it is infinity. -/
def doubleOf (x : ℚ) : Float :=
  .ofModel (pack (nearest .positive x))

/-- The double of a number that is not negative is a magnitude. -/
theorem isMagnitude_doubleOf {x : ℚ} (hx : 0 ≤ x) : IsMagnitude (doubleOf x).toModel.unpack :=
  (rank_carry (nearestEven_grid_bounds hx).1 (le_grid x) (nearestEven_grid_bounds hx).2).1

/-- The place of the nearest double. -/
theorem rank_doubleOf {x : ℚ} (hx : 0 ≤ x) : rank (doubleOf x).toModel.unpack =
    min ((grid x + 1074) * 2 ^ 52 + nearestEven (x / 2 ^ grid x)) (2047 * 2 ^ 52) :=
  (rank_carry (nearestEven_grid_bounds hx).1 (le_grid x) (nearestEven_grid_bounds hx).2).2

/-- Rounding keeps the order. -/
theorem rank_doubleOf_mono {x y : ℚ} (hx : 0 ≤ x) (hxy : x ≤ y) :
    rank (doubleOf x).toModel.unpack ≤ rank (doubleOf y).toModel.unpack := by
  have hy := hx.trans hxy
  rw [rank_doubleOf hx, rank_doubleOf hy]
  refine min_le_min_right _ ?_
  rcases (grid_mono hx hxy).lt_or_eq with hlt | heq
  · have hupper := (nearestEven_grid_bounds hx).1
    have hlower := (nearestEven_grid_bounds hy).2.resolve_right (by
      have := le_grid x
      omega)
    omega
  · have hmono : nearestEven (x / 2 ^ grid x) ≤ nearestEven (y / 2 ^ grid y) := by
      rw [heq]
      exact nearestEven_mono (div_le_div_of_nonneg_right hxy (by positivity))
    omega

/-- The exact value of a double is rounded to the double. -/
theorem nearest_of_finite (s : Sign) {m : ℕ} {e : ℤ} (hm : 0 < m) (he : -1074 ≤ e)
    (hupper : m < 2 ^ 53) (hlower : 2 ^ 52 ≤ m ∨ e = -1074) :
    nearest s (m * 2 ^ e) = .finite s m e hm := by
  have hlog : m.log2 < 53 := (Nat.log2_lt hm.ne').2 hupper
  have htarget : target m e = e := by
    rw [target_eq]
    rcases hlower with hlower | rfl
    · have := (Nat.le_log2 hm.ne').2 hlower
      omega
    · omega
  have hexact : (m * 2 ^ e : ℚ) / 2 ^ e = m := mul_div_cancel_right₀ _ (by positivity)
  have hgrid : grid (m * 2 ^ e) = e := by
    rw [← target_eq_grid hm hexact.ge (by rw [hexact]; linarith), htarget]
  rw [nearest, hgrid, hexact, nearestEven_natCast]
  exact carry_of_target_eq s hm htarget

/-- A finite double is the double of its value. -/
theorem doubleOf_of_finite {x : Float} {m : ℕ} {e : ℤ} {hm : 0 < m}
    (hx : x.toModel.unpack = .finite .positive m e hm) : doubleOf (m * 2 ^ e) = x := by
  have hbits := finite_cases hx
  rw [doubleOf, nearest_of_finite .positive hm (finite_range hx).1 (by omega) (by omega), ← hx,
    pack_unpack]

/-! ### Sums and products -/

/-- The exact value of a double that is neither negative nor infinite. -/
inductive Rounding.HasValue : UnpackedFloat → ℚ → Prop
  | zero : HasValue (.zero .positive) 0
  | finite (m : ℕ) (e : ℤ) (hm : 0 < m) : HasValue (.finite .positive m e hm) (m * 2 ^ e)

/-- A sum is rounded once. -/
theorem add_eq_doubleOf {a b : Float} {x y : ℚ} (ha : HasValue a.toModel.unpack x)
    (hb : HasValue b.toModel.unpack y) : a + b = doubleOf (x + y) := by
  change Float.ofModel (pack (UnpackedFloat.add .binary64 a.toModel.unpack b.toModel.unpack)) = _
  generalize hf : a.toModel.unpack = f at ha
  generalize hg : b.toModel.unpack = g at hb
  cases ha with
  | zero =>
    rw [zero_add]
    cases hb with
    | zero =>
      rw [doubleOf, nearest_zero]
      rfl
    | finite n i hn =>
      rw [doubleOf_of_finite hg]
      change Float.ofModel (pack (.finite .positive n i hn)) = _
      rw [← hg, pack_unpack]
  | finite m e hm =>
    cases hb with
    | zero =>
      rw [add_zero, doubleOf_of_finite hf]
      change Float.ofModel (pack (.finite .positive m e hm)) = _
      rw [← hf, pack_unpack]
    | finite n i hn =>
      -- both on the finer of the two grids
      obtain ⟨c, j, k, hc, rfl, rfl⟩ : ∃ (c : ℤ) (j k : ℕ), min e i = c ∧ e = c + j ∧ i = c + k :=
        ⟨min e i, (e - min e i).toNat, (i - min e i).toNat, rfl, by omega, by omega⟩
      have hsum : 0 < m * 2 ^ j + n * 2 ^ k :=
        Nat.add_pos_left (Nat.mul_pos hm (Nat.two_pow_pos j)) _
      have hvalue : (m * 2 ^ (c + j) + n * 2 ^ (c + k) : ℚ) =
          (m * 2 ^ j + n * 2 ^ k : ℕ) * 2 ^ c := by
        rw [zpow_add₀ two_ne_zero, zpow_add₀ two_ne_zero, zpow_natCast, zpow_natCast]
        push_cast
        ring
      have hadd : UnpackedFloat.add .binary64 (.finite .positive m (c + j) hm)
          (.finite .positive n (c + k) hn) =
          UnpackedFloat.normalize .binary64 ((m * 2 ^ j + n * 2 ^ k : ℕ) : ℤ) c .positive := by
        simp only [UnpackedFloat.add, decreaseExponent, Sign.apply, hc, add_sub_cancel_left,
          Int.toNat_natCast, Nat.shiftLeft_eq]
        push_cast
        rfl
      rw [hadd, normalize_eq_round (by omega), signOf_eq_positive.2 (Int.natCast_nonneg _),
        Int.natAbs_natCast, round_eq_nearest _ hsum, ← hvalue]
      rfl

/-- A product is rounded once. -/
theorem mul_eq_doubleOf {a b : Float} {x y : ℚ} (ha : HasValue a.toModel.unpack x)
    (hb : HasValue b.toModel.unpack y) : a * b = doubleOf (x * y) := by
  change Float.ofModel (pack (UnpackedFloat.mul .binary64 a.toModel.unpack b.toModel.unpack)) = _
  generalize hf : a.toModel.unpack = f at ha
  generalize hg : b.toModel.unpack = g at hb
  cases ha with
  | zero =>
    rw [zero_mul, doubleOf, nearest_zero]
    cases hb with
    | zero => rfl
    | finite n i hn => rfl
  | finite m e hm =>
    cases hb with
    | zero =>
      rw [mul_zero, doubleOf, nearest_zero]
      rfl
    | finite n i hn =>
      have hpos : 0 < m * n := Nat.mul_pos hm hn
      have hvalue : (m * 2 ^ e * (n * 2 ^ i) : ℚ) = (m * n : ℕ) * 2 ^ (e + i) := by
        rw [zpow_add₀ two_ne_zero]
        push_cast
        ring
      have hlog : m.log2 + n.log2 ≤ (m * n).log2 := by
        rw [Nat.le_log2 hpos.ne', Nat.pow_add]
        exact Nat.mul_le_mul (Nat.log2_self_le hm.ne') (Nat.log2_self_le hn.ne')
      -- the product has more bits than a double, or its exponent is out of reach
      have htarget : e + i ≤ target (m * n) (e + i) := by
        rw [target_eq]
        rcases finite_cases hf with hm' | hm'
        · have := (Nat.le_log2 hm.ne').2 hm'.1
          omega
        · rcases finite_cases hg with hn' | hn'
          · have := (Nat.le_log2 hn.ne').2 hn'.1
            omega
          · omega
      have hround := round_eq_roundWithAccuracy .positive hpos (e := e + i) (k := 0) (by omega)
      rw [Nat.pow_zero, Nat.mul_one, Int.natCast_zero, Int.sub_zero] at hround
      rw [hvalue, doubleOf, ← round_eq_nearest _ hpos, hround]
      rfl

/-- The double of a natural number is the nearest one. -/
theorem floatOfInt_natCast (n : ℕ) : floatOfInt n = doubleOf n := by
  change Float.ofModel (pack (UnpackedFloat.ofInt .binary64 n)) = _
  rcases Nat.eq_zero_or_pos n with rfl | hpos
  · have hzero : ((0 : ℕ) : ℚ) = 0 := Nat.cast_zero
    rw [hzero, doubleOf, nearest_zero]
    rfl
  · rw [ofInt_eq_round (by omega), signOf_eq_positive.2 (Int.natCast_nonneg _), Int.natAbs_natCast,
      round_eq_nearest _ hpos, zpow_zero, mul_one]
    rfl

end ScriptOps
