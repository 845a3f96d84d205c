import ScriptOps.Proofs.Rounding
import ScriptOps.Number.Binary

/-!
# Integers as doubles

The doubles of integers. Packing a double into bits and unpacking it gives it back, so the
arithmetic of doubles can be followed on unpacked numbers. An integer of at most 53 bits has a
double that is exactly it; sums, differences and products of such doubles are the doubles of the
sums, differences and products, rounded once; and the order of the doubles is that of the integers.
-/

namespace ScriptOps

open Float.Model Float.Model.UnpackedFloat

/-! ### Packing -/

namespace Rounding

/-- The sign is read back from packed components. -/
theorem unpackSign_packComponents {spec : Format} (s : Sign) (e : BitVec spec.exponentBits)
    (m : BitVec spec.mantissaBitsWithoutImplicit) :
    unpackSign (packComponents spec s e m) = s.toBitVec := by
  ext i hi
  obtain rfl : i = 0 := by omega
  simp [unpackSign, packComponents, BitVec.getLsbD_append, BitVec.getElem_append]

/-- A sign is what its bit says. -/
theorem ofBitVec_toBitVec (s : Sign) : Sign.ofBitVec s.toBitVec = s := by
  cases s <;> rfl

theorem unpack_pack_eq (f : UnpackedFloat) :
    (pack f).unpack = UnpackedFloat.unpack .binary64 (UnpackedFloat.pack .binary64 f) := rfl

/-- A zero keeps its sign. -/
theorem unpack_pack_zero (s : Sign) : (pack (.zero s)).unpack = .zero s := by
  rw [unpack_pack_eq]
  unfold UnpackedFloat.pack packedZero UnpackedFloat.unpack
  simp only [unpackMantissa_packComponents, unpackExponent_packComponents,
    unpackSign_packComponents, ofBitVec_toBitVec]
  rfl

/-- The fields of a number of 53 bits, whose leading bit is implicit. -/
theorem unpack_packComponents (s : Sign) {m biased : Nat} (hm : 0 < m) (hlower : 2 ^ 52 ≤ m)
    (hupper : m < 2 ^ 53) (hbiased : 0 < biased) (hbiased' : biased < 2047) :
    UnpackedFloat.unpack .binary64 (packComponents .binary64 s (BitVec.ofNat 11 biased)
      (BitVec.ofNat 52 m)) = .finite s m (biased - 1075) hm := by
  have hne : BitVec.ofNat 11 biased ≠ 0#11 := by
    intro h
    have hnat := congrArg BitVec.toNat h
    simp only [BitVec.toNat_ofNat] at hnat
    omega
  have hne' : BitVec.ofNat 11 biased ≠ -1#11 := by
    intro h
    have hnat := congrArg BitVec.toNat h
    simp at hnat
    omega
  have hmantissa : (1#1 ++ BitVec.ofNat 52 m).toNat = m := by
    rw [BitVec.toNat_append, ← Nat.shiftLeft_add_eq_or_of_lt (BitVec.isLt _), Nat.shiftLeft_eq,
      BitVec.toNat_ofNat, BitVec.toNat_ofNat]
    omega
  have hexponent : ((BitVec.ofNat 11 biased).toNat : Int) -
      ((Format.binary64.exponentBias : Int) + 52) = biased - 1075 := by
    have hbias : Format.binary64.exponentBias = 1023 := rfl
    rw [BitVec.toNat_ofNat, hbias]
    omega
  unfold UnpackedFloat.unpack
  simp only [unpackMantissa_packComponents, unpackExponent_packComponents,
    unpackSign_packComponents, ofBitVec_toBitVec, if_neg hne, if_neg hne']
  simp only [hmantissa]
  congr 1

/-- A number of 53 bits comes back if its exponent is in range. -/
theorem unpack_pack_finite (s : Sign) {m : Nat} {e : Int} (hm : 0 < m) (hlower : 2 ^ 52 ≤ m)
    (hupper : m < 2 ^ 53) (he : -1074 ≤ e) (he' : e ≤ 971) :
    (pack (.finite s m e hm)).unpack = .finite s m e hm := by
  have hlog : m.log2 = 52 := (Nat.log2_eq_iff hm.ne').2 ⟨hlower, hupper⟩
  obtain ⟨biased, hbiased⟩ : ∃ biased : Nat, e = biased - 1075 := ⟨(e + 1075).toNat, by omega⟩
  have hfield : (e + Format.binary64.exponentBias + (52 : Nat)).toNat = biased := by
    have hbias : Format.binary64.exponentBias = 1023 := rfl
    rw [hbias]
    omega
  rw [unpack_pack_eq]
  unfold UnpackedFloat.pack
  simp only [hfield, hlog]
  rw [if_neg (by omega), if_pos (show 52 + 1 = Format.binary64.mantissaBits from rfl)]
  subst hbiased
  exact unpack_packComponents s hm hlower hupper (by omega) (by omega)

/-- A finite double has a mantissa of 53 bits, but for the least ones. -/
theorem finite_cases {f : Float.Model} {s : Sign} {m : Nat} {e : Int} {hm : 0 < m}
    (h : f.unpack = .finite s m e hm) :
    2 ^ 52 ≤ m ∧ m < 2 ^ 53 ∨ m < 2 ^ 52 ∧ e = -1074 := by
  have hlt : (@unpackMantissa .binary64 f.toBits.toBitVec).toNat < 2 ^ 52 :=
    (@unpackMantissa .binary64 f.toBits.toBitVec).isLt
  change UnpackedFloat.unpack .binary64 f.toBits.toBitVec = _ at h
  unfold UnpackedFloat.unpack at h
  dsimp only at h
  split at h
  · split at h <;> nomatch h
  · split at h
    · next hexponent =>
      split at h
      · nomatch h
      · injection h with _ hmantissa he
        rw [hexponent] at he
        exact .inr ⟨hmantissa ▸ hlt, he.symm⟩
    · injection h with _ hmantissa _
      rw [BitVec.toNat_append, ← Nat.shiftLeft_add_eq_or_of_lt (BitVec.isLt _),
        Nat.shiftLeft_eq] at hmantissa
      have hone : (1#1).toNat * 2 ^ Format.binary64.mantissaBitsWithoutImplicit = 2 ^ 52 := rfl
      rw [hone] at hmantissa
      exact .inl ⟨by omega, by omega⟩

/-! ### Integers as unpacked numbers -/

/-- The sign of an integer. Zero is positive. -/
def signOf (i : Int) : Sign :=
  if i < 0 then .negative else .positive

/-- The sign of an integer is negative below zero. -/
theorem signOf_eq_negative {i : Int} : signOf i = .negative ↔ i < 0 := by
  unfold signOf
  split <;> simp_all

/-- It is positive from zero on. -/
theorem signOf_eq_positive {i : Int} : signOf i = .positive ↔ 0 ≤ i := by
  unfold signOf
  split <;> simp_all

/-- The sign applied to the magnitude gives the integer. -/
theorem apply_signOf (i : Int) : (signOf i).apply i.natAbs = i := by
  unfold signOf
  split
  · simp only [Sign.apply]
    omega
  · simp only [Sign.apply]
    omega

/-- An integer other than zero is normalized by rounding its magnitude. -/
theorem normalize_eq_round {i : Int} (hi : i ≠ 0) (e : Int) (s : Sign) :
    UnpackedFloat.normalize .binary64 i e s = round .binary64 (signOf i) i.natAbs e := by
  unfold UnpackedFloat.normalize signOf
  rcases Int.lt_trichotomy i 0 with hlt | heq | hgt
  · have hnat : (-i).toNat = i.natAbs := by omega
    rw [Int.compare_eq_lt.2 hlt, if_pos hlt, hnat]
  · exact absurd heq hi
  · have hnat : i.toNat = i.natAbs := by omega
    rw [Int.compare_eq_gt.2 hgt, if_neg (by omega), hnat]

theorem ofInt_zero : UnpackedFloat.ofInt .binary64 0 = .zero .positive := rfl

/-- So is an integer made a double. -/
theorem ofInt_eq_round {i : Int} (hi : i ≠ 0) :
    UnpackedFloat.ofInt .binary64 i = round .binary64 (signOf i) i.natAbs 0 :=
  normalize_eq_round hi 0 .positive

/-- How many zeros stand at the end of the mantissa of a natural number. -/
def spare (n : Nat) : Nat :=
  52 - n.log2

/-- A natural number below `2 ^ 53` has at most 53 bits. -/
theorem log2_le_of_lt {n : Nat} (hn : n < 2 ^ 53) : n.log2 ≤ 52 := by
  by_cases hzero : n = 0
  · subst hzero
    simp
  · have hlt := (Nat.log2_lt hzero).2 hn
    omega

/-- The exponent for such a number is the number of its spare bits below zero. -/
theorem target_natural {n : Nat} (hn' : n < 2 ^ 53) : target n 0 = -(spare n : Int) := by
  have hlog := log2_le_of_lt hn'
  rw [target_eq, spare]
  omega

/-- With the spare bits filled up the number has exactly 53 bits. -/
theorem mul_spare_bounds {n : Nat} (hn : 0 < n) (hn' : n < 2 ^ 53) :
    2 ^ 52 ≤ n * 2 ^ spare n ∧ n * 2 ^ spare n < 2 ^ 53 := by
  have hlog := log2_le_of_lt hn'
  have hpos : n * 2 ^ spare n ≠ 0 := (Nat.mul_pos hn (Nat.two_pow_pos _)).ne'
  refine (Nat.log2_eq_iff hpos).1 ?_
  rw [log2_mul_pow hn, spare]
  omega

/-- A natural number of at most 53 bits is not rounded. -/
theorem round_of_lt (s : Sign) {n : Nat} (hn : 0 < n) (hn' : n < 2 ^ 53) :
    round .binary64 s n 0 = .finite s (n * 2 ^ spare n) (-(spare n : Int))
      (Nat.mul_pos hn (Nat.two_pow_pos _)) := by
  have htarget := target_natural hn'
  have hround := round_eq_roundWithAccuracy s hn (e := 0) (k := spare n) (by omega)
  rw [Int.zero_sub] at hround
  rw [hround]
  refine roundWithAccuracy_of_target_eq s _ ?_
  have hscaled := target_mul_pow hn 0 (spare n)
  rwa [Int.zero_sub, htarget] at hscaled

/-- A small integer is a finite double with its digits shifted up. -/
theorem ofInt_eq_finite {i : Int} (hi : i ≠ 0) (hi' : i.natAbs < 2 ^ 53) :
    UnpackedFloat.ofInt .binary64 i = .finite (signOf i) (i.natAbs * 2 ^ spare i.natAbs)
      (-(spare i.natAbs : Int)) (Nat.mul_pos (Int.natAbs_pos.2 hi) (Nat.two_pow_pos _)) := by
  rw [ofInt_eq_round hi, round_of_lt _ (Int.natAbs_pos.2 hi) hi']

/-- The double of an integer is in range. -/
theorem unpack_floatOfInt {i : Int} (hi : i.natAbs < 2 ^ 64) :
    (floatOfInt i).toModel.unpack = UnpackedFloat.ofInt .binary64 i := by
  change (pack (UnpackedFloat.ofInt .binary64 i)).unpack = _
  by_cases hzero : i = 0
  · subst hzero
    exact unpack_pack_zero .positive
  by_cases hsmall : i.natAbs < 2 ^ 53
  · obtain ⟨hlower, hupper⟩ := mul_spare_bounds (Int.natAbs_pos.2 hzero) hsmall
    rw [ofInt_eq_finite hzero hsmall]
    refine unpack_pack_finite _ _ hlower hupper ?_ ?_ <;> (unfold spare; omega)
  · obtain ⟨q, e, hq, hlower, hupper, he, he', hround⟩ :=
      round_of_le (signOf i) (Nat.le_of_not_lt hsmall)
    have hlog : i.natAbs.log2 < 64 := (Nat.log2_lt (Int.natAbs_ne_zero.2 hzero)).2 hi
    rw [ofInt_eq_round hzero, hround]
    exact unpack_pack_finite _ hq hlower hupper (by omega) (by omega)

/-! ### Sums, differences and products -/

/-- Scaling by a power of two keeps the sign. -/
theorem signOf_mul_pow (i : Int) (k : Nat) : signOf (i * 2 ^ k) = signOf i := by
  have hpow : (0 : Int) < 2 ^ k := Int.pow_pos (by decide)
  have hiff : i * 2 ^ k < 0 ↔ i < 0 := by
    constructor
    · intro h
      by_contra hge
      have hnonneg := Int.mul_nonneg (Int.not_lt.1 hge) hpow.le
      omega
    · intro h
      exact Int.mul_neg_of_neg_of_pos h hpow
  simp only [signOf, hiff]

/-- Scaling by a power of two scales the magnitude. -/
theorem natAbs_mul_pow (i : Int) (k : Nat) : (i * 2 ^ k).natAbs = i.natAbs * 2 ^ k := by
  rw [Int.natAbs_mul, Int.natAbs_pow]
  rfl

/-- A whole number may be written with any number of zeros at the end. -/
theorem normalize_mul_pow (i : Int) (k : Nat) :
    UnpackedFloat.normalize .binary64 (i * 2 ^ k) (-(k : Int)) .positive =
      UnpackedFloat.ofInt .binary64 i := by
  by_cases hi : i = 0
  · subst hi
    rw [Int.zero_mul]
    rfl
  · have hne : i * 2 ^ k ≠ 0 := Int.mul_ne_zero hi (Int.pow_pos (by decide)).ne'
    have hround := round_mul_pow (signOf i) (Int.natAbs_pos.2 hi) 0 k
    rw [Int.zero_sub] at hround
    rw [normalize_eq_round hne, signOf_mul_pow, natAbs_mul_pow, hround, ofInt_eq_round hi]

/-- A common exponent is reached by shifting the digits. -/
theorem apply_decreaseExponent (i : Int) {k : Nat} (hk : spare i.natAbs ≤ k) :
    (signOf i).apply (decreaseExponent (i.natAbs * 2 ^ spare i.natAbs)
      (-(spare i.natAbs : Int)) (-(k : Int))).1 = i * 2 ^ k := by
  obtain ⟨j, rfl⟩ : ∃ j, k = spare i.natAbs + j := ⟨k - spare i.natAbs, by omega⟩
  have hshift : (-(spare i.natAbs : Int) - -((spare i.natAbs + j : Nat) : Int)).toNat = j := by
    omega
  have hmantissa : (decreaseExponent (i.natAbs * 2 ^ spare i.natAbs) (-(spare i.natAbs : Int))
      (-((spare i.natAbs + j : Nat) : Int))).1 = i.natAbs * 2 ^ (spare i.natAbs + j) := by
    simp only [decreaseExponent, hshift, Nat.shiftLeft_eq]
    ring
  rw [hmantissa, ← natAbs_mul_pow, ← signOf_mul_pow i (spare i.natAbs + j)]
  exact apply_signOf _

/-- The lower of two negated exponents negates the higher one. -/
theorem min_neg_neg (a b : Nat) : min (-(a : Int)) (-(b : Int)) = -((max a b : Nat) : Int) := by
  omega

/-- Doubles of small integers add up to the double of the sum. -/
theorem add_ofInt {a b : Int} (ha : a.natAbs < 2 ^ 53) (hb : b.natAbs < 2 ^ 53) :
    UnpackedFloat.add .binary64 (.ofInt .binary64 a) (.ofInt .binary64 b) =
      .ofInt .binary64 (a + b) := by
  by_cases ha0 : a = 0
  · subst ha0
    rw [Int.zero_add, ofInt_zero]
    by_cases hb0 : b = 0
    · subst hb0
      rfl
    · rw [ofInt_eq_finite hb0 hb]
      rfl
  by_cases hb0 : b = 0
  · subst hb0
    rw [Int.add_zero, ofInt_zero, ofInt_eq_finite ha0 ha]
    rfl
  rw [ofInt_eq_finite ha0 ha, ofInt_eq_finite hb0 hb, UnpackedFloat.add, min_neg_neg]
  dsimp only
  rw [apply_decreaseExponent a (Nat.le_max_left ..), apply_decreaseExponent b (Nat.le_max_right ..),
    ← Int.add_mul, normalize_mul_pow]

/-- They subtract to the double of the difference. -/
theorem sub_ofInt {a b : Int} (ha : a.natAbs < 2 ^ 53) (hb : b.natAbs < 2 ^ 53) :
    UnpackedFloat.sub .binary64 (.ofInt .binary64 a) (.ofInt .binary64 b) =
      .ofInt .binary64 (a - b) := by
  by_cases hb0 : b = 0
  · subst hb0
    rw [Int.sub_zero, ofInt_zero]
    by_cases ha0 : a = 0
    · subst ha0
      rfl
    · rw [ofInt_eq_finite ha0 ha]
      rfl
  by_cases ha0 : a = 0
  · subst ha0
    have hneg : signOf (-b) = -signOf b := by
      unfold signOf
      rcases Int.lt_or_gt_of_ne hb0 with hlt | hgt
      · rw [if_neg (by omega), if_pos hlt]
        rfl
      · rw [if_pos (by omega), if_neg (by omega)]
        rfl
    rw [Int.zero_sub, ofInt_zero, ofInt_eq_finite hb0 hb,
      ofInt_eq_finite (Int.neg_ne_zero.2 hb0) (by rwa [Int.natAbs_neg]), UnpackedFloat.sub]
    simp only [Int.natAbs_neg, hneg]
  rw [ofInt_eq_finite ha0 ha, ofInt_eq_finite hb0 hb, UnpackedFloat.sub, min_neg_neg]
  dsimp only
  rw [apply_decreaseExponent a (Nat.le_max_left ..), apply_decreaseExponent b (Nat.le_max_right ..),
    ← Int.sub_mul, normalize_mul_pow]

/-- The sign of a product is the product of the signs. -/
theorem signOf_mul {a b : Int} (ha : a ≠ 0) (hb : b ≠ 0) :
    signOf (a * b) = signOf a * signOf b := by
  unfold signOf
  rcases Int.lt_or_gt_of_ne ha with ha | ha <;> rcases Int.lt_or_gt_of_ne hb with hb | hb
  · rw [if_neg (Int.mul_pos_of_neg_of_neg ha hb).not_gt, if_pos ha, if_pos hb]
    rfl
  · rw [if_pos (Int.mul_neg_of_neg_of_pos ha hb), if_pos ha, if_neg (by omega)]
    rfl
  · rw [if_pos (Int.mul_neg_of_pos_of_neg ha hb), if_neg (by omega), if_pos hb]
    rfl
  · rw [if_neg (Int.mul_pos ha hb).not_gt, if_neg (by omega), if_neg (by omega)]
    rfl

/-- The product of two integers is rounded once. -/
theorem mul_ofInt {a b : Int} (ha : a.natAbs < 2 ^ 53) (hb : b.natAbs < 2 ^ 53) (ha0 : a ≠ 0)
    (hb0 : b ≠ 0) :
    UnpackedFloat.mul .binary64 (.ofInt .binary64 a) (.ofInt .binary64 b) =
      .ofInt .binary64 (a * b) := by
  have hapos := Int.natAbs_pos.2 ha0
  have hbpos := Int.natAbs_pos.2 hb0
  have hpos : 0 < a.natAbs * b.natAbs := Nat.mul_pos hapos hbpos
  have hlog : a.natAbs.log2 + b.natAbs.log2 ≤ (a.natAbs * b.natAbs).log2 := by
    rw [Nat.le_log2 hpos.ne', Nat.pow_add]
    exact Nat.mul_le_mul (Nat.log2_self_le hapos.ne') (Nat.log2_self_le hbpos.ne')
  have hround := round_eq_roundWithAccuracy (signOf a * signOf b) hpos (e := 0)
    (k := spare a.natAbs + spare b.natAbs) (by rw [target_eq, spare, spare]; omega)
  have hmantissa : a.natAbs * b.natAbs * 2 ^ (spare a.natAbs + spare b.natAbs) =
      a.natAbs * 2 ^ spare a.natAbs * (b.natAbs * 2 ^ spare b.natAbs) := by ring
  have hexponent : (0 : Int) - (spare a.natAbs + spare b.natAbs : Nat) =
      -(spare a.natAbs : Int) + -(spare b.natAbs : Int) := by omega
  rw [hmantissa, hexponent] at hround
  rw [ofInt_eq_finite ha0 ha, ofInt_eq_finite hb0 hb, ofInt_eq_round (Int.mul_ne_zero ha0 hb0),
    signOf_mul ha0 hb0, Int.natAbs_mul, hround]
  rfl

/-- A product with zero is a zero with the sign of the other factor. -/
theorem mul_ofInt_zero {a b : Int} (ha : a.natAbs < 2 ^ 53) (hb : b.natAbs < 2 ^ 53)
    (h : a = 0 ∨ b = 0) :
    UnpackedFloat.mul .binary64 (.ofInt .binary64 a) (.ofInt .binary64 b) =
      .zero (signOf (a + b)) := by
  rcases h with rfl | rfl
  · by_cases hb0 : b = 0
    · subst hb0
      rfl
    · rw [Int.zero_add, ofInt_zero, ofInt_eq_finite hb0 hb, UnpackedFloat.mul]
      cases signOf b <;> rfl
  · by_cases ha0 : a = 0
    · subst ha0
      rfl
    · rw [Int.add_zero, ofInt_zero, ofInt_eq_finite ha0 ha, UnpackedFloat.mul]
      cases signOf a <;> rfl

/-! ### Order -/

/-- Equally many zeros at the end do not change the order. -/
theorem compare_mul_pow (m n k : Nat) : compare (m * 2 ^ k) (n * 2 ^ k) = compare m n := by
  have hpow := Nat.two_pow_pos k
  rcases Nat.lt_trichotomy m n with hlt | rfl | hgt
  · rw [Nat.compare_eq_lt.2 hlt, Nat.compare_eq_lt.2 (Nat.mul_lt_mul_of_pos_right hlt hpow)]
  · rw [Nat.compare_eq_eq.2 rfl, Nat.compare_eq_eq.2 rfl]
  · rw [Nat.compare_eq_gt.2 hgt, Nat.compare_eq_gt.2 (Nat.mul_lt_mul_of_pos_right hgt hpow)]

/-- The exponents come first, because a longer number has fewer zeros at the end. -/
theorem compare_natural {m n : Nat} (hm : 0 < m) (hn : 0 < n) (hm' : m < 2 ^ 53)
    (hn' : n < 2 ^ 53) :
    (compare (-(spare m : Int)) (-(spare n : Int))).then
      (compare (m * 2 ^ spare m) (n * 2 ^ spare n)) = compare m n := by
  have hlogm := log2_le_of_lt hm'
  have hlogn := log2_le_of_lt hn'
  have hlow {a b : Nat} (hb : 0 < b) (h : a.log2 < b.log2) : a < b := by
    have hle := Nat.log2_self_le hb.ne'
    have hlt := Nat.lt_log2_self (n := a)
    have hpow : 2 ^ (a.log2 + 1) ≤ 2 ^ b.log2 := Nat.pow_le_pow_right (by decide) h
    omega
  rcases Nat.lt_trichotomy m.log2 n.log2 with hlt | heq | hgt
  · have hexponent : -(spare m : Int) < -(spare n : Int) := by
      rw [spare, spare]
      omega
    rw [Int.compare_eq_lt.2 hexponent, Nat.compare_eq_lt.2 (hlow hn hlt)]
    rfl
  · have hspare : spare m = spare n := by rw [spare, spare, heq]
    rw [hspare, Int.compare_eq_eq.2 rfl, compare_mul_pow]
    rfl
  · have hexponent : -(spare n : Int) < -(spare m : Int) := by
      rw [spare, spare]
      omega
    rw [Int.compare_eq_gt.2 hexponent, Nat.compare_eq_gt.2 (hlow hm hgt)]
    rfl

/-- The magnitudes decide between two integers of one sign. -/
theorem compare_natAbs {a b : Int} (h : signOf a = signOf b) :
    compare a b = match signOf a with
      | .positive => compare a.natAbs b.natAbs
      | .negative => (compare a.natAbs b.natAbs).swap := by
  unfold signOf at h ⊢
  by_cases ha : a < 0 <;> by_cases hb : b < 0 <;> simp only [ha, hb, if_true, if_false] at h ⊢
  · rw [Nat.compare_swap]
    rcases Int.lt_trichotomy a b with hlt | rfl | hgt
    · rw [Int.compare_eq_lt.2 hlt, Nat.compare_eq_lt.2 (by omega)]
    · rw [Int.compare_eq_eq.2 rfl, Nat.compare_eq_eq.2 rfl]
    · rw [Int.compare_eq_gt.2 hgt, Nat.compare_eq_gt.2 (by omega)]
  · cases h
  · cases h
  · rcases Int.lt_trichotomy a b with hlt | rfl | hgt
    · rw [Int.compare_eq_lt.2 hlt, Nat.compare_eq_lt.2 (by omega)]
    · rw [Int.compare_eq_eq.2 rfl, Nat.compare_eq_eq.2 rfl]
    · rw [Int.compare_eq_gt.2 hgt, Nat.compare_eq_gt.2 (by omega)]

/-- The order of the doubles is that of the integers. -/
theorem compare_ofInt {a b : Int} (ha : a.natAbs < 2 ^ 53) (hb : b.natAbs < 2 ^ 53) :
    UnpackedFloat.compare (.ofInt .binary64 a) (.ofInt .binary64 b) = some (compare a b) := by
  by_cases ha0 : a = 0 <;> by_cases hb0 : b = 0
  · subst ha0 hb0
    rfl
  · subst ha0
    rw [ofInt_zero, ofInt_eq_finite hb0 hb, signOf]
    split
    · next hneg => exact congrArg some (Int.compare_eq_gt.2 hneg).symm
    · next hneg => exact congrArg some (Int.compare_eq_lt.2 (by omega)).symm
  · subst hb0
    rw [ofInt_zero, ofInt_eq_finite ha0 ha, signOf]
    split
    · next hneg => exact congrArg some (Int.compare_eq_lt.2 hneg).symm
    · next hneg => exact congrArg some (Int.compare_eq_gt.2 (by omega)).symm
  · have hnatural := compare_natural (Int.natAbs_pos.2 ha0) (Int.natAbs_pos.2 hb0) ha hb
    rw [ofInt_eq_finite ha0 ha, ofInt_eq_finite hb0 hb]
    rcases hsa : signOf a <;> rcases hsb : signOf b <;>
      simp only [UnpackedFloat.compare, hnatural]
    · rw [compare_natAbs (hsa.trans hsb.symm), hsa]
    · have hlt := signOf_eq_negative.1 hsa
      have hge := signOf_eq_positive.1 hsb
      rw [Int.compare_eq_lt.2 (by omega)]
    · have hge := signOf_eq_positive.1 hsa
      have hlt := signOf_eq_negative.1 hsb
      rw [Int.compare_eq_gt.2 (by omega)]
    · rw [compare_natAbs (hsa.trans hsb.symm), hsa]

end Rounding

/-! ### Doubles of integers -/

open Rounding

/-- A double made from a small integer is what the model makes of it. -/
theorem unpack_floatOfInt_of_lt {i : Int} (hi : i.natAbs < 2 ^ 53) :
    (floatOfInt i).toModel.unpack = UnpackedFloat.ofInt .binary64 i :=
  unpack_floatOfInt (hi.trans (by decide))

/-- The sum of small integers is exact. -/
theorem floatOfInt_add {a b : Int} (ha : a.natAbs < 2 ^ 53) (hb : b.natAbs < 2 ^ 53) :
    floatOfInt a + floatOfInt b = floatOfInt (a + b) := by
  change Float.ofModel (pack (UnpackedFloat.add .binary64 (floatOfInt a).toModel.unpack
    (floatOfInt b).toModel.unpack)) = _
  rw [unpack_floatOfInt_of_lt ha, unpack_floatOfInt_of_lt hb, add_ofInt ha hb]
  rfl

/-- So is their difference. -/
theorem floatOfInt_sub {a b : Int} (ha : a.natAbs < 2 ^ 53) (hb : b.natAbs < 2 ^ 53) :
    floatOfInt a - floatOfInt b = floatOfInt (a - b) := by
  change Float.ofModel (pack (UnpackedFloat.sub .binary64 (floatOfInt a).toModel.unpack
    (floatOfInt b).toModel.unpack)) = _
  rw [unpack_floatOfInt_of_lt ha, unpack_floatOfInt_of_lt hb, sub_ofInt ha hb]
  rfl

/-- The product is that of the integers, except that a zero is negative when a factor is. -/
theorem floatOfInt_mul {a b : Int} (ha : a.natAbs < 2 ^ 53) (hb : b.natAbs < 2 ^ 53) :
    floatOfInt a * floatOfInt b =
      if a * b = 0 ∧ (a < 0 ∨ b < 0) then negativeZero else floatOfInt (a * b) := by
  change Float.ofModel (pack (UnpackedFloat.mul .binary64 (floatOfInt a).toModel.unpack
    (floatOfInt b).toModel.unpack)) = _
  rw [unpack_floatOfInt_of_lt ha, unpack_floatOfInt_of_lt hb]
  by_cases hzero : a = 0 ∨ b = 0
  · have hproduct : a * b = 0 := Int.mul_eq_zero.2 hzero
    rw [mul_ofInt_zero ha hb hzero, hproduct]
    by_cases hneg : a < 0 ∨ b < 0
    · rw [if_pos ⟨rfl, hneg⟩, signOf_eq_negative.2 (by omega)]
      rfl
    · rw [if_neg (fun h => hneg h.2), signOf_eq_positive.2 (by omega)]
      rfl
  · obtain ⟨ha0, hb0⟩ := not_or.1 hzero
    rw [mul_ofInt ha hb ha0 hb0, if_neg (fun h => Int.mul_ne_zero ha0 hb0 h.1)]
    rfl

/-- Small integers are equal as doubles exactly if they are equal. -/
theorem floatOfInt_beq {a b : Int} (ha : a.natAbs < 2 ^ 53) (hb : b.natAbs < 2 ^ 53) :
    (floatOfInt a == floatOfInt b) = (a == b) := by
  change (UnpackedFloat.compare (floatOfInt a).toModel.unpack (floatOfInt b).toModel.unpack ==
    some .eq) = _
  rw [unpack_floatOfInt_of_lt ha, unpack_floatOfInt_of_lt hb, compare_ofInt ha hb,
    Bool.eq_iff_iff]
  simp

/-- One is less as a double exactly if it is less. -/
theorem floatOfInt_lt {a b : Int} (ha : a.natAbs < 2 ^ 53) (hb : b.natAbs < 2 ^ 53) :
    floatOfInt a < floatOfInt b ↔ a < b := by
  change decide ((UnpackedFloat.compare (floatOfInt a).toModel.unpack
    (floatOfInt b).toModel.unpack == some .lt) = true) = true ↔ _
  rw [unpack_floatOfInt_of_lt ha, unpack_floatOfInt_of_lt hb, compare_ofInt ha hb,
    decide_eq_true_iff, beq_iff_eq, Option.some_inj, Int.compare_eq_lt]

/-- One is at most the other as a double exactly if it is. -/
theorem floatOfInt_le {a b : Int} (ha : a.natAbs < 2 ^ 53) (hb : b.natAbs < 2 ^ 53) :
    floatOfInt a ≤ floatOfInt b ↔ a ≤ b := by
  change decide ((UnpackedFloat.compare (floatOfInt a).toModel.unpack
    (floatOfInt b).toModel.unpack).any (·.isLE) = true) = true ↔ _
  rw [unpack_floatOfInt_of_lt ha, unpack_floatOfInt_of_lt hb, compare_ofInt ha hb,
    decide_eq_true_iff, Option.any_some, Int.isLE_compare]

/-- No integer is NaN. -/
theorem isNaN_floatOfInt {i : Int} (hi : i.natAbs < 2 ^ 53) : (floatOfInt i).isNaN = false := by
  change (floatOfInt i).toModel.unpack.isNaN = false
  rw [unpack_floatOfInt_of_lt hi]
  by_cases hzero : i = 0
  · subst hzero
    rfl
  · rw [ofInt_eq_finite hzero hi]
    rfl

end ScriptOps
