import ScriptOps.Proofs.IntegerDoubles

/-!
# The order of doubles

A double is what it is unpacked to, so facts about doubles can be told of unpacked numbers. The
doubles without a minus sign have places, `Rounding.rank`: a finite one has the place that its bits
give it when they are read as a natural number, and infinity comes after all of them. Different
doubles have different places, and the order of the doubles is that of their places.
-/

namespace ScriptOps

open Float.Model Float.Model.UnpackedFloat

namespace Rounding

/-! ### Packing -/

/-- A sign is read back from its bit. -/
theorem toBitVec_ofBitVec (b : BitVec 1) : (Sign.ofBitVec b).toBitVec = b := by
  revert b
  decide

/-- The bits of a double are those of its sign, its exponent and its mantissa. -/
theorem packComponents_unpack (b : BitVec 64) :
    packComponents .binary64 (Sign.ofBitVec (@unpackSign .binary64 b)) (unpackExponent b)
      (unpackMantissa b) = b := by
  unfold packComponents
  rw [toBitVec_ofBitVec]
  apply BitVec.eq_of_getLsbD_eq
  intro i hi
  change i < 64 at hi
  simp only [unpackSign, unpackExponent, unpackMantissa, BitVec.getLsbD_append,
    BitVec.getLsbD_cast, BitVec.getLsbD_extractLsb]
  by_cases hmantissa : i < 52
  · simp [hmantissa]
  by_cases hexponent : i < 63
  · have hplace : 52 + (i - 52) = i := by omega
    have hfield : i - 52 < 11 := by omega
    simp [hmantissa, hfield, hplace]
  · obtain rfl : i = 63 := by omega
    simp
    rfl

/-- A number with an implicit bit is packed into its fields. -/
theorem pack_normal (s : Sign) {e : BitVec 11} {m : BitVec 52} (he : e ≠ -1#11)
    (hm : 0 < (1#1 ++ m).toNat) :
    UnpackedFloat.pack .binary64 (.finite s (1#1 ++ m).toNat (e.toNat - (1023 + 52)) hm) =
      packComponents .binary64 s e m := by
  have hupper := m.isLt
  have hupper' := e.isLt
  have hmantissa : (1#1 ++ m).toNat = 2 ^ 52 + m.toNat := by
    rw [BitVec.toNat_append, ← Nat.shiftLeft_add_eq_or_of_lt hupper, Nat.shiftLeft_eq]
    rfl
  have hne : e.toNat ≠ 2047 := fun h => he (BitVec.eq_of_toNat_eq (h.trans rfl))
  have hlog : (1#1 ++ m).toNat.log2 = 52 := (Nat.log2_eq_iff hm.ne').2 ⟨by omega, by omega⟩
  have hfield : ((e.toNat : Int) - (1023 + 52) + Format.binary64.exponentBias + (52 : Nat)).toNat =
      e.toNat := by
    have hbias : Format.binary64.exponentBias = 1023 := rfl
    rw [hbias]
    omega
  unfold UnpackedFloat.pack
  simp only [hfield, hlog]
  rw [if_neg (by omega), if_pos (show 52 + 1 = Format.binary64.mantissaBits from rfl)]
  congr 1
  · simp
  · apply BitVec.eq_of_toNat_eq
    rw [BitVec.toNat_ofNat, hmantissa]
    omega

/-- So is one without. -/
theorem pack_subnormal (s : Sign) {m : BitVec 52} (hm : 0 < m.toNat) :
    UnpackedFloat.pack .binary64 (.finite s m.toNat (-1074) hm) =
      packComponents .binary64 s 0#11 m := by
  have hlog : m.toNat.log2 < 52 := (Nat.log2_lt hm.ne').2 m.isLt
  have hbits : Format.binary64.mantissaBits = 53 := rfl
  have hfield : (-1074 + (Format.binary64.exponentBias : Int) + (52 : Nat)).toNat = 1 := rfl
  unfold UnpackedFloat.pack
  simp only [hfield]
  rw [if_neg (by decide), if_neg (by omega)]
  congr 1
  simp

/-- A double is what it is unpacked to. -/
theorem pack_unpack (f : Float.Model) : Float.Model.pack f.unpack = f := by
  obtain ⟨bits, valid⟩ := f
  have hbits : UnpackedFloat.pack .binary64 (UnpackedFloat.unpack .binary64 bits.toBitVec) =
      bits.toBitVec := by
    -- packing the three fields gives the word back; only a NaN could lose its payload
    have hparts := packComponents_unpack bits.toBitVec
    unfold UnpackedFloat.unpack
    dsimp only
    split
    · next hexponent =>
      split
      · next hmantissa =>
        rw [hexponent, hmantissa] at hparts
        exact hparts
      · next hmantissa => exact (valid.eq_packedNaN hexponent hmantissa).symm
    · next hexponent =>
      split
      · next hzero =>
        split
        · next hmantissa =>
          rw [hzero, hmantissa] at hparts
          exact hparts
        · next hmantissa =>
          simp only [hzero] at hparts ⊢
          exact (pack_subnormal _ _).trans hparts
      · next hzero => exact (pack_normal _ hexponent _).trans hparts
  change Float.Model.mk (.ofBitVec (UnpackedFloat.pack .binary64
    (UnpackedFloat.unpack .binary64 bits.toBitVec))) _ = _
  congr 1
  rw [hbits]

/-- The exponents of finite doubles. -/
theorem finite_range {f : Float.Model} {s : Sign} {m : Nat} {e : Int} {hm : 0 < m}
    (h : f.unpack = .finite s m e hm) : -1074 ≤ e ∧ e ≤ 971 := by
  have hlt := (@unpackExponent .binary64 f.toBits.toBitVec).isLt
  have hbias : Format.binary64.exponentBias = 1023 := rfl
  change UnpackedFloat.unpack .binary64 f.toBits.toBitVec = _ at h
  unfold UnpackedFloat.unpack at h
  dsimp only at h hlt
  rw [hbias] at h
  split at h
  · split at h <;> nomatch h
  · next hexponent =>
    split at h
    · next hzero =>
      split at h
      · nomatch h
      · injection h with _ _ he
        rw [hzero] at he
        rw [← he]
        decide
    · next hzero =>
      injection h with _ _ he
      have hne : (@unpackExponent .binary64 f.toBits.toBitVec).toNat ≠ 0 := fun h =>
        hzero (BitVec.eq_of_toNat_eq (h.trans rfl))
      have hne' : (@unpackExponent .binary64 f.toBits.toBitVec).toNat ≠ 2047 := fun h =>
        hexponent (BitVec.eq_of_toNat_eq (h.trans rfl))
      omega

/-! ### Doubles that are not negative -/

/-- The unpacked numbers that are doubles and have no minus sign. -/
def IsMagnitude : UnpackedFloat → Prop
  | .notANumber => False
  | .zero s | .infinity s => s = .positive
  | .finite s m e _ => s = .positive ∧ -1074 ≤ e ∧ e ≤ 971 ∧ m < 2 ^ 53 ∧ (2 ^ 52 ≤ m ∨ e = -1074)

/-- The place of such a double among all of them, in order. -/
def rank : UnpackedFloat → ℤ
  | .zero _ => 0
  | .finite _ m e _ => (e + 1074) * 2 ^ 52 + m
  | .infinity _ | .notANumber => 2047 * 2 ^ 52

/-- The finite ones lie between zero and infinity. -/
theorem rank_finite_bounds {s : Sign} {m : Nat} {e : Int} {hm : 0 < m}
    (h : IsMagnitude (.finite s m e hm)) :
    0 < rank (.finite s m e hm) ∧ rank (.finite s m e hm) < 2047 * 2 ^ 52 := by
  obtain ⟨-, he, he', hm', -⟩ := h
  simp only [rank]
  omega

/-- The order of these doubles is that of their places. -/
theorem compare_eq_rank {f g : UnpackedFloat} (hf : IsMagnitude f) (hg : IsMagnitude g) :
    f.compare g = some (compare (rank f) (rank g)) := by
  cases f with
  | notANumber => exact hf.elim
  | zero s =>
    obtain rfl := hf
    cases g with
    | notANumber => exact hg.elim
    | zero s => exact congrArg some (Int.compare_eq_eq.2 rfl).symm
    | infinity s =>
      obtain rfl := hg
      exact congrArg some (Int.compare_eq_lt.2 (by norm_num [rank])).symm
    | finite s m e hm =>
      have hpos := (rank_finite_bounds hg).1
      obtain ⟨rfl, -⟩ := hg
      exact congrArg some (Int.compare_eq_lt.2 hpos).symm
  | infinity s =>
    obtain rfl := hf
    cases g with
    | notANumber => exact hg.elim
    | zero s =>
      exact congrArg some (Int.compare_eq_gt.2 (by norm_num [rank])).symm
    | infinity s =>
      obtain rfl := hg
      exact congrArg some (Int.compare_eq_eq.2 rfl).symm
    | finite s m e hm =>
      have hlt := (rank_finite_bounds hg).2
      obtain ⟨rfl, -⟩ := hg
      exact congrArg some (Int.compare_eq_gt.2 hlt).symm
  | finite s m e hm =>
    obtain ⟨hpos, hlt⟩ := rank_finite_bounds hf
    obtain ⟨rfl, he, he', hm', hn⟩ := hf
    cases g with
    | notANumber => exact hg.elim
    | zero s => exact congrArg some (Int.compare_eq_gt.2 hpos).symm
    | infinity s =>
      obtain rfl := hg
      exact congrArg some (Int.compare_eq_lt.2 hlt).symm
    | finite s n i hn' =>
      obtain ⟨rfl, hi, hi', hnupper, hnormal⟩ := hg
      change some ((compare e i).then (compare m n)) = _
      congr 1
      simp only [rank]
      -- the mantissa of the greater exponent is a full one
      rcases Int.lt_trichotomy e i with hlt | rfl | hgt
      · rw [Int.compare_eq_lt.2 hlt, Int.compare_eq_lt.2 (by omega)]
        rfl
      · rw [Int.compare_eq_eq.2 rfl, Ordering.eq_then]
        rcases Nat.lt_trichotomy m n with hlt | rfl | hgt
        · rw [Nat.compare_eq_lt.2 hlt, Int.compare_eq_lt.2 (by omega)]
        · rw [Nat.compare_eq_eq.2 rfl, Int.compare_eq_eq.2 rfl]
        · rw [Nat.compare_eq_gt.2 hgt, Int.compare_eq_gt.2 (by omega)]
      · rw [Int.compare_eq_gt.2 hgt, Int.compare_eq_gt.2 (by omega)]
        rfl

/-- Different doubles have different places. -/
theorem eq_of_rank_eq {f g : UnpackedFloat} (hf : IsMagnitude f) (hg : IsMagnitude g)
    (h : rank f = rank g) : f = g := by
  cases f with
  | notANumber => exact hf.elim
  | zero s =>
    obtain rfl := hf
    cases g with
    | notANumber => exact hg.elim
    | zero s => rw [show s = _ from hg]
    | infinity s => norm_num [rank] at h
    | finite s m e hm => exact absurd h (rank_finite_bounds hg).1.ne
  | infinity s =>
    obtain rfl := hf
    cases g with
    | notANumber => exact hg.elim
    | zero s => norm_num [rank] at h
    | infinity s => rw [show s = _ from hg]
    | finite s m e hm => exact absurd h (rank_finite_bounds hg).2.ne'
  | finite s m e hm =>
    obtain ⟨hpos, hlt⟩ := rank_finite_bounds hf
    obtain ⟨rfl, he, he', hm', hn⟩ := hf
    cases g with
    | notANumber => exact hg.elim
    | zero s => exact absurd h hpos.ne'
    | infinity s => exact absurd h hlt.ne
    | finite s n i hn' =>
      obtain ⟨rfl, hi, hi', hnupper, hnormal⟩ := hg
      -- the mantissas are normalized, so the ranks decide the exponents and then the mantissas
      simp only [rank] at h
      obtain rfl : e = i := by omega
      obtain rfl : m = n := by omega
      rfl

/-- The least doubles have no implicit bit. -/
theorem unpack_pack_subnormal (s : Sign) {m : ℕ} (hm : 0 < m) (hupper : m < 2 ^ 52) :
    (pack (.finite s m (-1074) hm)).unpack = .finite s m (-1074) hm := by
  have hmantissa : (BitVec.ofNat 52 m).toNat = m := by
    rw [BitVec.toNat_ofNat, Nat.mod_eq_of_lt hupper]
  have hne : BitVec.ofNat 52 m ≠ 0#52 := by
    rintro h
    rw [h] at hmantissa
    exact hm.ne hmantissa
  have hpack : UnpackedFloat.pack .binary64 (.finite s m (-1074) hm) =
      packComponents .binary64 s 0#11 (BitVec.ofNat 52 m) := by
    have hfields := pack_subnormal s (m := BitVec.ofNat 52 m) (hmantissa.symm ▸ hm)
    simpa only [hmantissa] using hfields
  rw [unpack_pack_eq, hpack]
  unfold UnpackedFloat.unpack
  simp only [unpackMantissa_packComponents, unpackExponent_packComponents,
    unpackSign_packComponents, ofBitVec_toBitVec]
  rw [if_neg (by decide), if_pos trivial, dif_neg hne]
  simp only [hmantissa]
  rfl

/-- Doubles come back. -/
theorem unpack_pack {f : UnpackedFloat} (hf : IsMagnitude f.abs) : (pack f).unpack = f := by
  cases f with
  | notANumber => exact hf.elim
  | zero s => exact unpack_pack_zero s
  | infinity s => cases s <;> rfl
  | finite s m e hm =>
    obtain ⟨-, he, he', hupper, hlower⟩ := hf
    by_cases hnormal : 2 ^ 52 ≤ m
    · exact unpack_pack_finite _ hm hnormal hupper he he'
    · obtain rfl := hlower.resolve_left hnormal
      exact unpack_pack_subnormal _ hm (Nat.not_le.1 hnormal)

/-- A magnitude is its own absolute value. -/
theorem IsMagnitude.abs_eq {f : UnpackedFloat} (hf : IsMagnitude f) : f.abs = f := by
  cases f with
  | notANumber => exact hf.elim
  | zero s => exact congrArg UnpackedFloat.zero hf.symm
  | infinity s => exact congrArg UnpackedFloat.infinity hf.symm
  | finite s m e hm =>
    obtain ⟨rfl, -⟩ := hf
    rfl

/-- A packed magnitude is unpacked to itself. -/
theorem IsMagnitude.unpack_pack {f : UnpackedFloat} (hf : IsMagnitude f) : (pack f).unpack = f :=
  Rounding.unpack_pack (hf.abs_eq.symm ▸ hf)

/-- Without its sign a double is not negative. -/
theorem isMagnitude_abs {f : Float.Model} (hf : f.unpack ≠ .notANumber) :
    IsMagnitude f.unpack.abs := by
  cases hunpack : f.unpack with
  | notANumber => exact absurd hunpack hf
  | zero s => rfl
  | infinity s => rfl
  | finite s m e hm =>
    have hcases := finite_cases hunpack
    have hrange := finite_range hunpack
    exact ⟨rfl, hrange.1, hrange.2, by omega, by omega⟩

/-- A number and its opposite have the same absolute value. -/
theorem abs_neg (f : UnpackedFloat) : f.neg.abs = f.abs := by
  cases f <;> rfl

/-- Beyond the range there is only infinity. -/
theorem pack_of_large (s : Sign) {m : ℕ} {e : ℤ} (hm : 0 < m) (he : 971 < e) :
    pack (.finite s m e hm) = pack (.infinity s) := by
  have hfield : 2 ^ 11 ≤ (e + (Format.binary64.exponentBias : ℤ) + (52 : ℕ)).toNat + 1 := by
    have hbias : Format.binary64.exponentBias = 1023 := rfl
    rw [hbias]
    omega
  unfold Float.Model.pack UnpackedFloat.pack
  simp only [if_pos hfield]

end Rounding

/-! ### The order of doubles -/

open Rounding

section

variable {x y : Float} (hx : IsMagnitude x.toModel.unpack) (hy : IsMagnitude y.toModel.unpack)

include hx hy

/-- One magnitude is less than another exactly if its rank is. -/
theorem lt_iff_rank : x < y ↔ rank x.toModel.unpack < rank y.toModel.unpack := by
  change decide ((UnpackedFloat.compare x.toModel.unpack y.toModel.unpack == some .lt) = true) =
    true ↔ _
  rw [compare_eq_rank hx hy, decide_eq_true_iff, beq_iff_eq, Option.some_inj, Int.compare_eq_lt]

/-- It is at most the other exactly if its rank is. -/
theorem le_iff_rank : x ≤ y ↔ rank x.toModel.unpack ≤ rank y.toModel.unpack := by
  change decide ((UnpackedFloat.compare x.toModel.unpack y.toModel.unpack).any (·.isLE) = true) =
    true ↔ _
  rw [compare_eq_rank hx hy, decide_eq_true_iff, Option.any_some, Int.isLE_compare]

/-- They are equal as numbers exactly if their ranks are equal. -/
theorem beq_iff_rank : x == y ↔ rank x.toModel.unpack = rank y.toModel.unpack := by
  change (UnpackedFloat.compare x.toModel.unpack y.toModel.unpack == some .eq) = true ↔ _
  rw [compare_eq_rank hx hy, beq_iff_eq, Option.some_inj, Int.compare_eq_eq]

/-- They are the same double exactly if their ranks are equal. -/
theorem eq_iff_rank : x = y ↔ rank x.toModel.unpack = rank y.toModel.unpack := by
  constructor
  · intro h
    rw [h]
  · intro h
    change Float.ofModel x.toModel = Float.ofModel y.toModel
    rw [← pack_unpack x.toModel, eq_of_rank_eq hx hy h, pack_unpack]

end

/-! ### Negation -/

/-- Negation turns the sign around and keeps the rest. -/
theorem unpack_neg (x : Float) : (-x).toModel.unpack = x.toModel.unpack.neg := by
  change (pack x.toModel.unpack.neg).unpack = _
  by_cases hx : x.toModel.unpack = .notANumber
  · rw [hx]
    rfl
  · refine unpack_pack ?_
    rw [abs_neg]
    exact isMagnitude_abs hx

/-- The opposite of the opposite is the number. -/
theorem neg_neg_float (x : Float) : - -x = x := by
  have hneg : x.toModel.unpack.neg.neg = x.toModel.unpack := by
    cases x.toModel.unpack with
    | notANumber => rfl
    | zero s | infinity s | finite s => cases s <;> rfl
  change Float.ofModel (pack (-x).toModel.unpack.neg) = _
  rw [unpack_neg, hneg, pack_unpack]

/-- A number and its opposite are both NaN or neither is. -/
theorem isNaN_neg (x : Float) : (-x).isNaN = x.isNaN := by
  change (-x).toModel.unpack.isNaN = x.toModel.unpack.isNaN
  rw [unpack_neg]
  cases x.toModel.unpack <;> rfl

end ScriptOps
