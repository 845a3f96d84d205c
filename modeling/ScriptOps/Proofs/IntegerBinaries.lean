import ScriptOps.Arithmetic
import ScriptOps.Proofs.IntegerDoubles

/-!
# Integers read back from doubles

The exact view of the double of an integer. Its mantissa is the magnitude with some zeros at the
end, and a negative exponent drops them again, so the whole part, the remainder and the test for an
integer of 32 bits see the integer itself. Hence the canonical representation of the double of an
integer is the canonical representation of the integer, whether or not it was rounded on the way.
-/

namespace ScriptOps

open Float.Model Float.Model.UnpackedFloat Rounding

namespace Binary

/-- An integer with `k` zeros at the end of its mantissa. -/
def ofInt (i : Int) (k : Nat) : Binary :=
  ⟨decide (i < 0), i.natAbs * 2 ^ k, -(k : Int)⟩

/-- The whole magnitude of an integer is its magnitude. -/
theorem wholeMagnitude_ofInt (i : Int) (k : Nat) : (ofInt i k).wholeMagnitude = i.natAbs := by
  simp only [wholeMagnitude, ofInt, Int.neg_neg, Int.toNat_natCast]
  split
  · obtain rfl : k = 0 := by omega
    simp
  · exact Nat.mul_div_cancel _ (Nat.two_pow_pos k)

/-- Truncating an integer gives the integer. -/
theorem truncate_ofInt (i : Int) (k : Nat) : (ofInt i k).truncate = i := by
  have hnegative : (ofInt i k).negative = decide (i < 0) := rfl
  rw [truncate, wholeMagnitude_ofInt, hnegative]
  by_cases hneg : i < 0
  · rw [decide_eq_true hneg, if_pos rfl]
    omega
  · rw [decide_eq_false hneg, if_neg Bool.false_ne_true]
    omega

/-- An integer has no fractional part. -/
theorem isWhole_ofInt (i : Int) (k : Nat) : (ofInt i k).IsWhole := by
  refine .inr ?_
  simp [ofInt]

/-- The sign of an integer as a binary number is its sign. -/
theorem sign_ofInt (i : Int) (k : Nat) : (ofInt i k).sign = signOf i := by
  simp [sign, ofInt, signOf]

/-- The zeros at the end do not show in the double. -/
theorem toFloat_ofInt (i : Int) (k : Nat) : (ofInt i k).toFloat = floatOfInt i := by
  by_cases hi : i = 0
  · subst hi
    simp only [toFloat, ofInt, Int.natAbs_zero, Nat.zero_mul, if_true]
    rfl
  · have hpos := Int.natAbs_pos.2 hi
    have hne : (ofInt i k).mantissa ≠ 0 := (Nat.mul_pos hpos (Nat.two_pow_pos k)).ne'
    have hround := round_mul_pow (signOf i) hpos 0 k
    rw [Int.zero_sub] at hround
    rw [toFloat, if_neg hne, sign_ofInt]
    change Float.ofModel (pack (round .binary64 (signOf i) (i.natAbs * 2 ^ k) (-(k : Int)))) =
      Float.ofModel (pack (UnpackedFloat.ofInt .binary64 i))
    rw [hround, ofInt_eq_round hi]

/-- The remainder of two integers is theirs, on the finer of the two grids. -/
theorem remainder_ofInt {a b : Int} (ha : 0 ≤ a) (j k : Nat) :
    (ofInt a j).remainder (ofInt b k) = ofInt (a.tmod b) (max j k) := by
  have hmin : min (-(j : Int)) (-(k : Int)) = -((max j k : Nat) : Int) := min_neg_neg j k
  have hleft : a.natAbs * 2 ^ j * 2 ^ (-(j : Int) - -((max j k : Nat) : Int)).toNat =
      a.natAbs * 2 ^ max j k := by
    rw [Nat.mul_assoc, ← Nat.pow_add]
    congr 2
    omega
  have hright : b.natAbs * 2 ^ k * 2 ^ (-(k : Int) - -((max j k : Nat) : Int)).toNat =
      b.natAbs * 2 ^ max j k := by
    rw [Nat.mul_assoc, ← Nat.pow_add]
    congr 2
    omega
  have hsign : ¬ a.tmod b < 0 := (Int.tmod_nonneg b ha).not_gt
  simp only [remainder, ofInt, hmin, hleft, hright, Nat.mul_mod_mul_right, Int.natAbs_tmod,
    decide_eq_false ha.not_gt, decide_eq_false hsign]

/-- The sign of an integer is negative exactly if the integer is. -/
theorem beq_negative_signOf (i : Int) : (signOf i == .negative) = decide (i < 0) := by
  by_cases hi : i < 0
  · rw [signOf_eq_negative.2 hi, decide_eq_true hi]
    rfl
  · rw [signOf_eq_positive.2 (Int.not_lt.1 hi), decide_eq_false hi]
    rfl

/-- The double of an integer of at most 53 bits is read back exactly. -/
theorem ofFloat?_floatOfInt {i : Int} (hi : i.natAbs < 2 ^ 53) :
    ∃ k, ofFloat? (floatOfInt i) = some (ofInt i k) := by
  rw [ofFloat?, unpack_floatOfInt_of_lt hi]
  by_cases hzero : i = 0
  · subst hzero
    exact ⟨0, rfl⟩
  · rw [ofInt_eq_finite hzero hi]
    refine ⟨spare i.natAbs, ?_⟩
    rw [ofInt, ← beq_negative_signOf]

/-- The double of a longer integer is whole, and as long. -/
theorem ofFloat?_floatOfInt_large {i : Int} (hi : 2 ^ 53 ≤ i.natAbs) (hi' : i.natAbs < 2 ^ 64) :
    ∃ b, ofFloat? (floatOfInt i) = some b ∧ 2 ^ 53 ≤ b.truncate.natAbs := by
  obtain ⟨q, e, hq, hlower, -, he, -, hround⟩ := round_of_le (signOf i) hi
  have hne : i ≠ 0 := by
    rintro rfl
    exact absurd hi (by decide)
  refine ⟨⟨signOf i == .negative, q, e⟩, ?_, ?_⟩
  · rw [ofFloat?, unpack_floatOfInt hi', ofInt_eq_round hne, hround]
  · have hwhole : (Binary.mk (signOf i == .negative) q e).wholeMagnitude = q * 2 ^ e.toNat :=
      if_pos (Int.le_of_lt he)
    have hpow : 2 ^ 1 ≤ 2 ^ e.toNat := Nat.pow_le_pow_right (by decide) (by omega)
    have hmul : 2 ^ 52 * 2 ^ 1 ≤ q * 2 ^ e.toNat := Nat.mul_le_mul hlower hpow
    rw [truncate, hwhole]
    split <;> omega

/-! ### Whole doubles -/

/-- A whole number of at most 53 bits has its zeros at the end of the mantissa. -/
theorem eq_ofInt_of_isWhole {m : Nat} {e : Int} (hm : 0 < m)
    (hbits : 2 ^ 52 ≤ m ∧ m < 2 ^ 53 ∨ m < 2 ^ 52 ∧ e = -1074) {negative : Bool}
    (hwhole : (Binary.mk negative m e).IsWhole)
    (hsmall : (Binary.mk negative m e).wholeMagnitude < 2 ^ 53) :
    let n := (Binary.mk negative m e).wholeMagnitude
    0 < n ∧ m = n * 2 ^ spare n ∧ e = -(spare n : Int) := by
  intro n
  by_cases he : 0 ≤ e
  · obtain ⟨k, rfl⟩ : ∃ k : Nat, e = k := ⟨e.toNat, by omega⟩
    have hn : n = m * 2 ^ k := by simp [n, wholeMagnitude]
    have hnormal : 2 ^ 52 ≤ m ∧ m < 2 ^ 53 := hbits.resolve_right fun h => by omega
    have hk : k = 0 := by
      by_contra hne
      have hpow : 2 ^ 1 ≤ 2 ^ k := Nat.pow_le_pow_right (by decide) (by omega)
      have hmul : 2 ^ 52 * 2 ^ 1 ≤ m * 2 ^ k := Nat.mul_le_mul hnormal.1 hpow
      have hn' : n < 2 ^ 53 := hsmall
      omega
    subst hk
    rw [Nat.pow_zero, Nat.mul_one] at hn
    have hspare : spare n = 0 := by
      have hlog : n.log2 = 52 := (Nat.log2_eq_iff (by omega)).2 (hn ▸ hnormal)
      rw [spare, hlog]
    rw [hspare, hn]
    simp [hm]
  · obtain ⟨k, rfl⟩ : ∃ k : Nat, e = -(k : Int) := ⟨(-e).toNat, by omega⟩
    have hn : n = m / 2 ^ k := by
      simp only [n, wholeMagnitude, if_neg he, Int.neg_neg, Int.toNat_natCast]
    have hdvd : m = n * 2 ^ k := by
      have hmod : m % 2 ^ k = 0 := by
        rcases hwhole with hnonneg | hmod
        · exact absurd hnonneg he
        · simpa using hmod
      rw [hn]
      exact (Nat.div_mul_cancel (Nat.dvd_of_mod_eq_zero hmod)).symm
    have hpos : 0 < n := Nat.pos_of_mul_pos_right (hdvd ▸ hm)
    have hlog : m.log2 = n.log2 + k := by rw [hdvd, log2_mul_pow hpos]
    -- the least doubles are no integers
    have hnormal : 2 ^ 52 ≤ m ∧ m < 2 ^ 53 := hbits.resolve_right fun h => by
      have hlt := (Nat.log2_lt hm.ne').2 h.1
      omega
    have hlog' : m.log2 = 52 := (Nat.log2_eq_iff hm.ne').2 hnormal
    have hspare : spare n = k := by
      rw [spare]
      omega
    rw [hspare]
    exact ⟨hpos, hdvd, rfl⟩

/-- A whole double of at most 53 bits equals the double of its whole part. Only the sign of a zero
may be another. -/
theorem floatOfInt_truncate_beq {x : Float} {b : Binary} (hx : ofFloat? x = some b)
    (hwhole : b.IsWhole) (hsmall : b.truncate.natAbs < 2 ^ 53) :
    (floatOfInt b.truncate == x) = true := by
  change (UnpackedFloat.compare (floatOfInt b.truncate).toModel.unpack x.toModel.unpack ==
    some .eq) = true
  rw [unpack_floatOfInt_of_lt hsmall]
  unfold ofFloat? at hx
  cases hunpack : x.toModel.unpack with
  | infinity s => rw [hunpack] at hx; nomatch hx
  | notANumber => rw [hunpack] at hx; nomatch hx
  | zero s =>
    rw [hunpack] at hx
    obtain rfl := Option.some.inj hx
    cases s <;> rfl
  | finite s m e hm =>
    rw [hunpack] at hx
    obtain rfl := Option.some.inj hx
    have hmagnitude : (Binary.mk (s == .negative) m e).truncate.natAbs =
        (Binary.mk (s == .negative) m e).wholeMagnitude := by
      rw [truncate]
      split <;> omega
    -- a whole number below `2 ^ 53` unpacks to the same mantissa and exponent as the integer
    obtain ⟨hpos, hmantissa, hexponent⟩ := eq_ofInt_of_isWhole hm (finite_cases hunpack) hwhole
      (hmagnitude ▸ hsmall)
    have hsign : signOf (Binary.mk (s == .negative) m e).truncate = s := by
      cases s with
      | negative => exact signOf_eq_negative.2 (Int.neg_neg_of_pos (Int.natCast_pos.2 hpos))
      | positive => exact signOf_eq_positive.2 (Int.natCast_nonneg _)
    have hne : (Binary.mk (s == .negative) m e).truncate ≠ 0 := by omega
    have hsame : UnpackedFloat.finite s m e hm =
        .ofInt .binary64 (Binary.mk (s == .negative) m e).truncate := by
      rw [ofInt_eq_finite hne hsmall, UnpackedFloat.finite.injEq, hmagnitude, hsign]
      exact ⟨rfl, hmantissa, hexponent⟩
    rw [hsame, compare_ofInt hsmall hsmall, beq_iff_eq, Option.some_inj, Int.compare_eq_eq]

/-- Only a number compares as equal to itself, apart from the zeros. -/
theorem eq_of_compare_finite {s t : UnpackedFloat.Sign} {m n : Nat} {d e : Int} {hm : 0 < m}
    {hn : 0 < n}
    (h : UnpackedFloat.compare (.finite s m d hm) (.finite t n e hn) = some .eq) :
    s = t ∧ m = n ∧ d = e := by
  cases s <;> cases t <;> simp only [UnpackedFloat.compare, Option.some_inj, reduceCtorEq] at h
  · rw [Ordering.swap_eq_eq, Ordering.then_eq_eq, Int.compare_eq_eq, Nat.compare_eq_eq] at h
    exact ⟨rfl, h.2, h.1⟩
  · rw [Ordering.then_eq_eq, Int.compare_eq_eq, Nat.compare_eq_eq] at h
    exact ⟨rfl, h.2, h.1⟩

/-- A double that equals the double of an integer is whole, and the integer is its whole part. -/
theorem isWhole_of_floatOfInt_beq {i : Int} (hi : i.natAbs < 2 ^ 53) {x : Float}
    (h : (floatOfInt i == x) = true) : ∃ b, ofFloat? x = some b ∧ b.IsWhole ∧ b.truncate = i := by
  have hcompare : UnpackedFloat.compare (UnpackedFloat.ofInt .binary64 i) x.toModel.unpack =
      some .eq := by
    rw [← unpack_floatOfInt_of_lt hi]
    exact beq_iff_eq.1 h
  unfold ofFloat?
  by_cases hzero : i = 0
  · subst hzero
    rw [ofInt_zero] at hcompare
    cases hunpack : x.toModel.unpack with
    | zero s => exact ⟨_, rfl, .inl (Int.le_refl 0), by cases s <;> rfl⟩
    | infinity s => rw [hunpack] at hcompare; cases s <;> nomatch hcompare
    | notANumber => rw [hunpack] at hcompare; nomatch hcompare
    | finite s m e hm => rw [hunpack] at hcompare; cases s <;> nomatch hcompare
  · rw [ofInt_eq_finite hzero hi] at hcompare
    cases hunpack : x.toModel.unpack with
    | zero s =>
      rw [hunpack] at hcompare
      cases hs : signOf i <;> rw [hs] at hcompare <;> nomatch hcompare
    | infinity s => rw [hunpack] at hcompare; cases s <;> nomatch hcompare
    | notANumber => rw [hunpack] at hcompare; nomatch hcompare
    | finite s m e hm =>
      rw [hunpack] at hcompare
      obtain ⟨rfl, rfl, rfl⟩ := eq_of_compare_finite hcompare
      refine ⟨ofInt i (spare i.natAbs), ?_, isWhole_ofInt .., truncate_ofInt ..⟩
      rw [ofInt, ← beq_negative_signOf]

end Binary

/-! ### The integer of 32 bits that a double equals -/

/-- An integer within the range is a word of 32 bits again. -/
theorem exactInt32?_floatOfInt {i : Int} (hi : -2 ^ 31 ≤ i ∧ i < 2 ^ 31) :
    exactInt32? (floatOfInt i) = some (.ofInt i) := by
  obtain ⟨k, hk⟩ := Binary.ofFloat?_floatOfInt (i := i) (by omega)
  have hzero : ¬ ((Binary.ofInt i k).negative ∧ (Binary.ofInt i k).mantissa = 0) := by
    rintro ⟨hneg, hmantissa⟩
    have hlt : i < 0 := of_decide_eq_true hneg
    rcases Nat.mul_eq_zero.1 hmantissa with hnat | hpow
    · omega
    · exact absurd hpow (Nat.two_pow_pos k).ne'
  rw [exactInt32?, hk]
  simp only [Binary.truncate_ofInt]
  rw [if_pos ⟨Binary.isWhole_ofInt i k, hi.1, hi.2, hzero⟩]

/-- An integer beyond the range is no word. -/
theorem exactInt32?_floatOfInt_eq_none {i : Int} (hi : ¬ (-2 ^ 31 ≤ i ∧ i < 2 ^ 31))
    (hi' : i.natAbs < 2 ^ 64) : exactInt32? (floatOfInt i) = none := by
  have hoff : ∃ b, Binary.ofFloat? (floatOfInt i) = some b ∧
      ¬ (-2 ^ 31 ≤ b.truncate ∧ b.truncate < 2 ^ 31) := by
    by_cases hsmall : i.natAbs < 2 ^ 53
    · obtain ⟨k, hk⟩ := Binary.ofFloat?_floatOfInt hsmall
      exact ⟨_, hk, by rwa [Binary.truncate_ofInt]⟩
    · obtain ⟨b, hb, hlarge⟩ := Binary.ofFloat?_floatOfInt_large (Nat.le_of_not_lt hsmall) hi'
      exact ⟨b, hb, by omega⟩
  obtain ⟨b, hb, hrange⟩ := hoff
  rw [exactInt32?, hb]
  exact if_neg fun h => hrange ⟨h.2.1, h.2.2.1⟩

/-- Negative zero is no word. -/
theorem exactInt32?_negativeZero : exactInt32? negativeZero = none := by
  have hzero : Binary.ofFloat? negativeZero = some ⟨true, 0, 0⟩ := by
    rw [Binary.ofFloat?, negativeZero, unpack_pack_zero]
    rfl
  rw [exactInt32?, hzero]
  simp

/-- Rounding an integer first does not change its canonical representation. -/
theorem Primitive.ofFloat_floatOfInt {i : Int} (hi : i.natAbs < 2 ^ 64) :
    Primitive.ofFloat (floatOfInt i) = Primitive.ofInt i := by
  rw [Primitive.ofFloat, Primitive.ofInt]
  by_cases hrange : -2 ^ 31 ≤ i ∧ i < 2 ^ 31
  · rw [exactInt32?_floatOfInt hrange, if_pos hrange]
  · rw [exactInt32?_floatOfInt_eq_none hrange hi, if_neg hrange]

/-- So a number made from negative zero keeps its sign. -/
theorem Primitive.ofFloat_negativeZero :
    Primitive.ofFloat negativeZero = .number negativeZero := by
  rw [Primitive.ofFloat, exactInt32?_negativeZero]

/-! ### Remainders and residues -/

/-- The remainder of two doubles that are integers is that of the integers. -/
theorem floatRemainder_floatOfInt {a b : Int} (ha : 0 ≤ a) (ha' : a.natAbs < 2 ^ 53) (hb : b ≠ 0)
    (hb' : b.natAbs < 2 ^ 53) :
    floatRemainder (floatOfInt a) (floatOfInt b) = floatOfInt (a.tmod b) := by
  obtain ⟨j, hj⟩ := Binary.ofFloat?_floatOfInt ha'
  obtain ⟨k, hk⟩ := Binary.ofFloat?_floatOfInt hb'
  have hmantissa : (Binary.ofInt b k).mantissa ≠ 0 :=
    (Nat.mul_pos (Int.natAbs_pos.2 hb) (Nat.two_pow_pos k)).ne'
  rw [floatRemainder, hj, hk]
  simp only [if_neg hmantissa]
  rw [Binary.remainder_ofInt ha, Binary.toFloat_ofInt]

/-- The whole part of an integer is the integer. -/
theorem wholePart_floatOfInt {i : Int} (hi : i.natAbs < 2 ^ 53) : wholePart (floatOfInt i) = i := by
  obtain ⟨k, hk⟩ := Binary.ofFloat?_floatOfInt hi
  rw [wholePart, hk]
  exact Binary.truncate_ofInt i k

end ScriptOps
