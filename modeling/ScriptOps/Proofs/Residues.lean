import ScriptOps.Proofs.IntegerBinaries

/-!
# Residues of doubles

The residue of a double modulo `2 ^ 32` is computed in doubles without ever rounding. Dropping the
fraction leaves the double of the whole part; the remainder of a division by `2 ^ 32` has less than
32 bits; and so have the sums and differences that bring it into its range. So the residue is that
of the whole part as an exact integer, for doubles of any magnitude.
-/

namespace ScriptOps

open Float.Model Float.Model.UnpackedFloat Rounding

namespace Binary

/-! ### Whole doubles of any magnitude -/

/-- The double of an integer that is given by sign and magnitude, with zeros at the end of its
mantissa. Only a zero needs the sign. -/
theorem toFloat_whole (negative : Bool) (n k : Nat) :
    (Binary.mk negative (n * 2 ^ k) (-(k : Int))).toFloat =
      if n = 0 ∧ negative then negativeZero
      else floatOfInt (if negative then -(n : Int) else n) := by
  rcases Nat.eq_zero_or_pos n with rfl | hpos
  · cases negative with
    | false => simpa [ofInt] using toFloat_ofInt 0 k
    | true => simp [toFloat, sign, negativeZero]
  · have hne : ¬(n = 0 ∧ negative) := fun h => hpos.ne' h.1
    rw [if_neg hne, ← toFloat_ofInt _ k]
    cases negative with
    | false => simp [ofInt, (Int.natCast_nonneg n).not_gt]
    | true => simp [ofInt, hpos]

/-- Negative zero unpacks to a zero with a sign. -/
theorem ofFloat?_negativeZero : ofFloat? negativeZero = some ⟨true, 0, 0⟩ := by
  rw [ofFloat?, negativeZero, unpack_pack_zero]
  rfl

/-- Such a double of at most 53 bits is read back with the same sign and magnitude. -/
theorem ofFloat?_toFloat_whole (negative : Bool) {n : Nat} (hn : n < 2 ^ 53) (k : Nat) :
    ∃ c, ofFloat? (Binary.mk negative (n * 2 ^ k) (-(k : Int))).toFloat = some c ∧ c.IsWhole ∧
      c.negative = negative ∧ c.wholeMagnitude = n := by
  rw [toFloat_whole]
  by_cases hzero : n = 0 ∧ negative
  · obtain ⟨rfl, rfl⟩ := hzero
    exact ⟨_, ofFloat?_negativeZero, .inl (Int.le_refl 0), rfl, rfl⟩
  · obtain ⟨j, hj⟩ := ofFloat?_floatOfInt (i := if negative then -(n : Int) else n)
      (by split <;> omega)
    rw [if_neg hzero]
    refine ⟨_, hj, isWhole_ofInt .., ?_, ?_⟩
    · cases negative with
      | false => simp [ofInt]
      | true => simp_all [ofInt, Nat.pos_iff_ne_zero]
    · rw [wholeMagnitude_ofInt]
      split <;> omega

/-- The magnitude in a unit that divides it. -/
theorem mantissa_mul_pow {b : Binary} (hwhole : b.IsWhole) {j : Nat}
    (hj : -(j : Int) ≤ b.exponent) :
    b.mantissa * 2 ^ (b.exponent - -(j : Int)).toNat = b.wholeMagnitude * 2 ^ j := by
  unfold wholeMagnitude
  split
  · next hexponent =>
    rw [Nat.mul_assoc, ← Nat.pow_add]
    congr 2
    omega
  · next hexponent =>
    have hmod : b.mantissa % 2 ^ (-b.exponent).toNat = 0 := hwhole.resolve_left hexponent
    have hsplit : j = (-b.exponent).toNat + (b.exponent - -(j : Int)).toNat := by omega
    conv_rhs => rw [hsplit, Nat.pow_add, ← Nat.mul_assoc]
    rw [Nat.div_mul_cancel (Nat.dvd_of_mod_eq_zero hmod)]

/-- The remainder of a whole number and an integer is theirs, however large the number. -/
theorem remainder_whole {a : Binary} (ha : a.IsWhole) (n k : Nat) :
    ∃ j : Nat, a.remainder ⟨false, n * 2 ^ k, -(k : Int)⟩ =
      ⟨a.negative, a.wholeMagnitude % n * 2 ^ j, -(j : Int)⟩ := by
  obtain ⟨j, hj⟩ : ∃ j : Nat, min a.exponent (-(k : Int)) = -(j : Int) :=
    ⟨(-min a.exponent (-(k : Int))).toNat, by omega⟩
  have hleft := mantissa_mul_pow ha (j := j) (by omega)
  have hright : n * 2 ^ k * 2 ^ (-(k : Int) - -(j : Int)).toNat = n * 2 ^ j := by
    rw [Nat.mul_assoc, ← Nat.pow_add]
    congr 2
    omega
  refine ⟨j, ?_⟩
  simp only [remainder, hj, hleft, hright, Nat.mul_mod_mul_right]

/-- The mantissa of a double has 53 bits. -/
theorem mantissa_lt {x : Float} {b : Binary} (hx : ofFloat? x = some b) : b.mantissa < 2 ^ 53 := by
  unfold ofFloat? at hx
  cases hunpack : x.toModel.unpack with
  | infinity s => rw [hunpack] at hx; nomatch hx
  | notANumber => rw [hunpack] at hx; nomatch hx
  | zero s =>
    rw [hunpack] at hx
    obtain rfl := Option.some.inj hx
    exact Nat.two_pow_pos 53
  | finite s m e hm =>
    rw [hunpack] at hx
    obtain rfl := Option.some.inj hx
    have hbits := finite_cases hunpack
    dsimp only
    omega

end Binary

open Binary

variable {x : Float} {b : Binary}

/-- Dropping the fraction leaves the sign and the whole part of the magnitude. -/
theorem ofFloat?_dropFraction (hx : ofFloat? x = some b) :
    ∃ c, ofFloat? (dropFraction x) = some c ∧ c.IsWhole ∧ c.negative = b.negative ∧
      c.wholeMagnitude = b.wholeMagnitude := by
  rw [dropFraction, hx]
  dsimp only
  split
  · next hwhole => exact ⟨b, hx, hwhole, rfl, rfl⟩
  · next hfraction =>
    have hexponent : ¬0 ≤ b.exponent := fun h => hfraction (.inl h)
    have hsmall : b.wholeMagnitude < 2 ^ 53 := by
      rw [wholeMagnitude, if_neg hexponent]
      exact (Nat.div_le_self ..).trans_lt (mantissa_lt hx)
    have hwhole := ofFloat?_toFloat_whole b.negative hsmall 0
    rwa [Nat.pow_zero, Nat.mul_one, Int.natCast_zero, Int.neg_zero] at hwhole

/-- The remainder of a division by `2 ^ 32` is that of the whole part. A zero keeps the sign. -/
theorem floatRemainder_dropFraction (hx : ofFloat? x = some b) :
    floatRemainder (dropFraction x) residueModulus =
      if b.wholeMagnitude % 0x100000000 = 0 ∧ b.negative then negativeZero
      else floatOfInt (b.truncate.tmod 0x100000000) := by
  obtain ⟨c, hc, hwhole, hnegative, hmagnitude⟩ := ofFloat?_dropFraction hx
  obtain ⟨k, hk⟩ := ofFloat?_floatOfInt (i := 0x100000000) (by decide)
  obtain ⟨j, hj⟩ := remainder_whole hwhole 0x100000000 k
  have hmodulus : ofInt 0x100000000 k = ⟨false, 0x100000000 * 2 ^ k, -(k : Int)⟩ := rfl
  have hpos : 0x100000000 * 2 ^ k ≠ 0 := by positivity
  rw [floatRemainder, hc, residueModulus, hk, hmodulus]
  simp only [hpos, if_false]
  rw [hj, toFloat_whole, hnegative, hmagnitude]
  have htruncate : (if b.negative then -((b.wholeMagnitude % 0x100000000 : Nat) : Int)
      else (b.wholeMagnitude % 0x100000000 : Nat)) = b.truncate.tmod 0x100000000 := by
    rw [truncate]
    cases b.negative with
    | false => rfl
    | true =>
      simp only [if_true, Int.neg_tmod]
      rfl
  rw [htruncate]

/-! ### The residue in doubles -/

/-- The finite doubles are those that unpack to a binary number. -/
theorem isFinite_eq (x : Float) : x.isFinite = (ofFloat? x).isSome := by
  change x.toModel.unpack.isFinite = _
  rw [ofFloat?]
  cases x.toModel.unpack <;> rfl

/-- Negative zero is not below zero. -/
theorem not_negativeZero_lt_zero : ¬negativeZero < 0 := by
  decide +kernel

/-- The residue as a double is that of the whole part. A residue of zero may have a sign. -/
theorem floatResidue_cases (hx : ofFloat? x = some b) :
    floatResidue x = floatOfInt (b.truncate % 0x100000000) ∨
      floatResidue x = negativeZero ∧ b.truncate % 0x100000000 = 0 := by
  have hremainder := floatRemainder_dropFraction hx
  have hmagnitude : (b.wholeMagnitude : Int) = b.truncate ∨
      (b.wholeMagnitude : Int) = -b.truncate := by
    rw [truncate]
    split <;> simp
  unfold floatResidue
  simp only [hremainder]
  split
  · next hzero =>
    rw [if_neg not_negativeZero_lt_zero]
    exact .inr ⟨rfl, by omega⟩
  · have hzero : (0 : Float) = floatOfInt 0 := rfl
    have htmod := Int.tmod_eq_emod (a := b.truncate) (b := 0x100000000)
    have hsmall : (b.truncate.tmod 0x100000000).natAbs < 2 ^ 53 := by
      rw [Int.natAbs_tmod]
      exact (Nat.mod_lt _ (by decide)).trans (by decide)
    rw [hzero, residueModulus]
    simp only [floatOfInt_lt hsmall (by decide : (0 : Int).natAbs < 2 ^ 53),
      floatOfInt_add hsmall (by decide : (0x100000000 : Int).natAbs < 2 ^ 53)]
    left
    split <;> congr 1 <;> split at htmod <;> omega

/-- The whole part of a finite double is its truncation. -/
theorem wholePart_of_ofFloat? (hx : ofFloat? x = some b) : wholePart x = b.truncate := by
  rw [wholePart, hx]

/-- The whole part of an infinity or a NaN is zero. -/
theorem wholePart_eq_zero (hx : ofFloat? x = none) : wholePart x = 0 := by
  rw [wholePart, hx]

/-- Reducing a double modulo `2 ^ 32` reduces its whole part. -/
theorem wholePart_floatResidue (hx : ofFloat? x = some b) :
    wholePart (floatResidue x) = wholePart x % 0x100000000 := by
  rw [wholePart_of_ofFloat? hx]
  rcases floatResidue_cases hx with hresidue | ⟨hresidue, hzero⟩
  · rw [hresidue, wholePart_floatOfInt (by omega)]
  · rw [hresidue, hzero, wholePart_of_ofFloat? ofFloat?_negativeZero]
    rfl

/-! ### Residues of 32 bits -/

/-- The residue without a sign is that of the whole part. -/
theorem residueUInt32_eq (x : Float) :
    residueUInt32 x = .ofBitVec (.ofInt 32 (wholePart x)) := by
  rw [residueUInt32, isFinite_eq]
  cases hx : ofFloat? x with
  | none =>
    rw [wholePart_eq_zero hx]
    rfl
  | some b =>
    rw [Option.isSome_some, if_pos rfl, saturateUInt32, wholePart_floatResidue hx]
    apply UInt32.toNat.inj
    rw [UInt32.toNat_ofNat', UInt32.toNat_ofBitVec, BitVec.toNat_ofInt]
    omega

/-- Negative zero is below the bound of the signed words. -/
theorem not_le_negativeZero : ¬floatOfInt 0x80000000 ≤ negativeZero := by
  decide +kernel

/-- An integer of 32 bits is not moved. -/
theorem saturateInt32_floatOfInt {i : Int} (hlower : -0x80000000 ≤ i) (hupper : i < 0x80000000) :
    saturateInt32 (floatOfInt i) = .ofInt i := by
  rw [saturateInt32, wholePart_floatOfInt (by omega), min_eq_left (by omega),
    max_eq_right (by omega)]

/-- A word depends on an integer only modulo `2 ^ 32`. -/
theorem int32_ofInt_congr {i j : Int} (h : i % 0x100000000 = j % 0x100000000) :
    Int32.ofInt i = .ofInt j := by
  apply Int32.toInt_inj.1
  rw [Int32.toInt_ofInt, Int32.toInt_ofInt, Int.bmod_def, Int.bmod_def]
  simp only [Int32.size] at *
  omega

/-- The residue with a sign is that of the whole part. -/
theorem residueInt32_eq (x : Float) : residueInt32 x = .ofInt (wholePart x) := by
  rw [residueInt32, isFinite_eq]
  cases hx : ofFloat? x with
  | none =>
    rw [wholePart_eq_zero hx]
    rfl
  | some b =>
    rw [Option.isSome_some, if_pos rfl, wholePart_of_ofFloat? hx]
    dsimp only
    rcases floatResidue_cases hx with hresidue | ⟨hresidue, hzero⟩
    · have hsmall : (b.truncate % 0x100000000).natAbs < 2 ^ 53 := by omega
      rw [hresidue, residueModulus,
        floatOfInt_sub hsmall (by decide : (0x100000000 : Int).natAbs < 2 ^ 53)]
      simp only [floatOfInt_le (by decide : (0x80000000 : Int).natAbs < 2 ^ 53) hsmall]
      split
      · rw [saturateInt32_floatOfInt (by omega) (by omega)]
        exact int32_ofInt_congr (by omega)
      · rw [saturateInt32_floatOfInt (by omega) (by omega)]
        exact int32_ofInt_congr (by omega)
    · rw [hresidue, if_neg not_le_negativeZero, saturateInt32,
        wholePart_of_ofFloat? ofFloat?_negativeZero]
      exact int32_ofInt_congr hzero.symm

end ScriptOps
