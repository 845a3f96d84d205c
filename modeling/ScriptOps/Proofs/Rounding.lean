import Mathlib

/-!
# Rounding to doubles

What the logical model of doubles does when it rounds a positive number `m * 2 ^ e`. Shifting drops
bits and remembers in two of them how much was lost; the result depends on the number alone, not on
how it is split into mantissa and exponent; a number that fits is left as it is; and a whole number
that does not fit stays at or above `2 ^ 53`.
-/

namespace ScriptOps.Rounding

open Float.Model Float.Model.UnpackedFloat

/-! ### Shifting -/

theorem shiftRight_zero (em : ExtendedMantissa) : em >>> 0 = em := rfl

theorem shiftRight_succ (em : ExtendedMantissa) (n : Nat) :
    em >>> (n + 1) = (em >>> n).shiftRightOne := rfl

/-- Shifts to the right add up. -/
theorem shiftRight_add (em : ExtendedMantissa) (k n : Nat) :
    em >>> (k + n) = (em >>> k) >>> n := by
  induction n with
  | zero => rfl
  | succ n ih => rw [← Nat.add_assoc, shiftRight_succ, shiftRight_succ, ih]

/-- The bits that remain. -/
theorem mantissa_shiftRight (em : ExtendedMantissa) (n : Nat) :
    (em >>> n).mantissa = em.mantissa / 2 ^ n := by
  induction n with
  | zero => simp [shiftRight_zero]
  | succ n ih =>
    rw [shiftRight_succ, ExtendedMantissa.shiftRightOne, ih, Nat.div_div_eq_div_mul, Nat.pow_succ]

/-- Zeros at the end are shifted out without a trace. -/
theorem shiftRight_mul_pow (m k : Nat) :
    (⟨m * 2 ^ k, false, false⟩ : ExtendedMantissa) >>> k = ⟨m, false, false⟩ := by
  induction k generalizing m with
  | zero => simp [shiftRight_zero]
  | succ k ih =>
    have hsplit : m * 2 ^ (k + 1) = m * 2 * 2 ^ k := by ring
    rw [hsplit, shiftRight_succ, ih]
    simp [ExtendedMantissa.shiftRightOne]

/-- Rounding goes to the mantissa or to the next one. -/
theorem roundedMantissa_cases (em : ExtendedMantissa) :
    em.roundedMantissa = em.mantissa ∨ em.roundedMantissa = em.mantissa + 1 := by
  obtain ⟨m, round, sticky⟩ := em
  rcases Nat.mod_two_eq_zero_or_one m with hm | hm <;> cases round <;> cases sticky <;>
    simp [ExtendedMantissa.roundedMantissa, ExtendedMantissa.accuracy,
      Accuracy.roundToNearestEven, hm]

/-! ### The exponent that a number is rounded to -/

/-- The exponent of the double for `m * 2 ^ e`. -/
def target (m : Nat) (e : Int) : Int :=
  Format.binary64.targetExponent (totalExponent m e)

/-- The exponent is that of the last of 53 bits, but not below that of the subnormals. -/
theorem target_eq (m : Nat) (e : Int) : target m e = max (m.log2 + e - 52) (-1074) := by
  simp only [target, Format.targetExponent, totalExponent, Format.mantissaBits, Format.minExponent]
  norm_num
  omega

/-- A factor of a power of two moves the top bit by its exponent. -/
theorem log2_mul_pow {m : Nat} (hm : 0 < m) (k : Nat) : (m * 2 ^ k).log2 = m.log2 + k := by
  induction k with
  | zero => simp
  | succ k ih =>
    have hne : m * 2 ^ k ≠ 0 := (Nat.mul_pos hm (Nat.two_pow_pos k)).ne'
    have hsplit : m * 2 ^ (k + 1) = 2 * (m * 2 ^ k) := by ring
    rw [hsplit, Nat.log2_two_mul hne, ih, Nat.add_assoc]

/-- It depends on the number alone. -/
theorem target_mul_pow {m : Nat} (hm : 0 < m) (e : Int) (k : Nat) :
    target (m * 2 ^ k) (e - k) = target m e := by
  rw [target_eq, target_eq, log2_mul_pow hm]
  congr 1
  push_cast
  ring

/-- Rounding shifts the mantissa as far as the exponent of the double asks. -/
theorem shiftToTargetExponent_eq (m : Nat) (e : Int) :
    shiftToTargetExponent .binary64 m e .exact =
      ((⟨m, false, false⟩ : ExtendedMantissa) >>> (target m e - e).toNat,
        e + (target m e - e).toNat) := rfl

/-! ### The number alone decides -/

/-- A power of two moved from the exponent into the mantissa does not change the shifted
mantissa. -/
theorem shiftToTargetExponent_mul_pow {m : Nat} (hm : 0 < m) {e : Int} (he : e ≤ target m e)
    (k : Nat) : shiftToTargetExponent .binary64 (m * 2 ^ k) (e - k) .exact =
      shiftToTargetExponent .binary64 m e .exact := by
  have hshift : (target m e - (e - k)).toNat = k + (target m e - e).toNat := by omega
  rw [shiftToTargetExponent_eq, shiftToTargetExponent_eq, target_mul_pow hm, hshift,
    shiftRight_add, shiftRight_mul_pow]
  congr 1
  push_cast
  ring

/-- Where only bits are dropped, more zeros at the end make no difference. -/
theorem roundWithAccuracy_mul_pow (s : Sign) {m : Nat} (hm : 0 < m) {e : Int}
    (he : e ≤ target m e) (k : Nat) :
    roundWithAccuracy .binary64 s (m * 2 ^ k) (e - k) .exact =
      roundWithAccuracy .binary64 s m e .exact := by
  unfold roundWithAccuracy
  rw [shiftToTargetExponent_mul_pow hm he]

/-- Rounding drops bits from any way to write the number with a small enough exponent. -/
theorem round_eq_roundWithAccuracy (s : Sign) {m : Nat} (hm : 0 < m) {e : Int} {k : Nat}
    (hk : e - k ≤ target m e) :
    round .binary64 s m e = roundWithAccuracy .binary64 s (m * 2 ^ k) (e - k) .exact := by
  have hround : round .binary64 s m e = roundWithAccuracy .binary64 s
      (m * 2 ^ (e - target m e).toNat) (e - (e - target m e).toNat) .exact := by
    rw [← Nat.shiftLeft_eq]
    rfl
  -- the shift that rounding makes itself is the least one, and the rest are zeros at the end
  obtain ⟨i, hi⟩ : ∃ i, k = (e - target m e).toNat + i := ⟨k - (e - target m e).toNat, by omega⟩
  have hle : e - (e - target m e).toNat ≤ target m e := by omega
  generalize (e - target m e).toNat = j at hround hi hle
  subst hi
  have hpos : 0 < m * 2 ^ j := Nat.mul_pos hm (Nat.two_pow_pos j)
  have hscaled := roundWithAccuracy_mul_pow s hpos (e := e - j) (by rwa [target_mul_pow hm]) i
  have hmantissa : m * 2 ^ (j + i) = m * 2 ^ j * 2 ^ i := by ring
  have hexponent : e - (j + i : Nat) = e - j - i := by omega
  rw [hround, hmantissa, hexponent, hscaled]

/-- Rounding depends on the number alone. -/
theorem round_mul_pow (s : Sign) {m : Nat} (hm : 0 < m) (e : Int) (k : Nat) :
    round .binary64 s (m * 2 ^ k) (e - k) = round .binary64 s m e := by
  have hpos : 0 < m * 2 ^ k := Nat.mul_pos hm (Nat.two_pow_pos k)
  let j := (e - k - target m e).toNat
  have hj : e - k - j ≤ target m e := by omega
  have hleft := round_eq_roundWithAccuracy s hpos (e := e - k) (k := j)
    (by rwa [target_mul_pow hm])
  have hright := round_eq_roundWithAccuracy s hm (e := e) (k := k + j) (by omega)
  have hmantissa : m * 2 ^ (k + j) = m * 2 ^ k * 2 ^ j := by ring
  have hexponent : e - (k + j : Nat) = e - k - j := by omega
  rw [hleft, hright, hmantissa, hexponent]

/-! ### Numbers that fit, and large ones -/

/-- The second half of rounding: a mantissa that was rounded up may have one bit too many. -/
def carry (s : Sign) (m : Nat) (e : Int) : UnpackedFloat :=
  let shifted := shiftToTargetExponent .binary64 m e .exact
  if h : shifted.1.mantissa = 0 then .zero s
  else .finite s shifted.1.mantissa shifted.2 (Nat.pos_of_ne_zero h)

/-- The first half drops bits and rounds. -/
theorem roundWithAccuracy_eq_carry (s : Sign) (m : Nat) (e : Int) :
    roundWithAccuracy .binary64 s m e .exact =
      carry s ((⟨m, false, false⟩ : ExtendedMantissa) >>> (target m e - e).toNat).roundedMantissa
        (e + (target m e - e).toNat) := rfl

/-- A mantissa that fits is kept. -/
theorem carry_of_target_eq (s : Sign) {m : Nat} (hm : 0 < m) {e : Int} (he : target m e = e) :
    carry s m e = .finite s m e hm := by
  have hshift : shiftToTargetExponent .binary64 m e .exact = (⟨m, false, false⟩, e) := by
    rw [shiftToTargetExponent_eq, he, Int.sub_self]
    simp [shiftRight_zero]
  unfold carry
  simp only [hshift, dif_neg hm.ne']

/-- Of one bit too many the last one is zero. -/
theorem carry_two_pow (s : Sign) {e : Int} (he : -1074 ≤ e) :
    carry s (2 ^ 53) e = .finite s (2 ^ 52) (e + 1) (by decide) := by
  have htarget : target (2 ^ 53) e = e + 1 := by
    rw [target_eq, Nat.log2_two_pow]
    omega
  have hshift : shiftToTargetExponent .binary64 (2 ^ 53) e .exact =
      (⟨2 ^ 52, false, false⟩, e + 1) := by
    rw [shiftToTargetExponent_eq, htarget, show e + 1 - e = 1 by omega]
    rfl
  unfold carry
  simp only [hshift]
  rfl

/-- A number that has the exponent of its double is left as it is. -/
theorem roundWithAccuracy_of_target_eq (s : Sign) {m : Nat} (hm : 0 < m) {e : Int}
    (he : target m e = e) : roundWithAccuracy .binary64 s m e .exact = .finite s m e hm := by
  rw [roundWithAccuracy_eq_carry, he, Int.sub_self]
  have hrounded : ((⟨m, false, false⟩ : ExtendedMantissa) >>> (0 : Int).toNat).roundedMantissa =
      m := rfl
  rw [hrounded, Int.toNat_zero, Int.natCast_zero, Int.add_zero]
  exact carry_of_target_eq s hm he

/-- A whole number of more than 53 bits is rounded to one of 53 bits and a positive exponent. -/
theorem round_of_le (s : Sign) {m : Nat} (hm : 2 ^ 53 ≤ m) :
    ∃ (q : Nat) (e : Int) (hq : 0 < q), 2 ^ 52 ≤ q ∧ q < 2 ^ 53 ∧ 1 ≤ e ∧ e ≤ m.log2 - 51 ∧
      round .binary64 s m 0 = .finite s q e hq := by
  have hpos : 0 < m := Nat.lt_of_lt_of_le (by decide) hm
  have hlog : 53 ≤ m.log2 := (Nat.le_log2 hpos.ne').2 hm
  obtain ⟨t, ht⟩ : ∃ t, m.log2 = t + 52 := ⟨m.log2 - 52, by omega⟩
  have htarget : target m 0 = t := by
    rw [target_eq]
    omega
  -- the first shift leaves 53 bits
  have hlower : 2 ^ 52 ≤ m / 2 ^ t := by
    rw [Nat.le_div_iff_mul_le (Nat.two_pow_pos t), ← Nat.pow_add, Nat.add_comm, ← ht]
    exact Nat.log2_self_le hpos.ne'
  have hupper : m / 2 ^ t < 2 ^ 53 := by
    rw [Nat.div_lt_iff_lt_mul (Nat.two_pow_pos t), ← Nat.pow_add]
    have hlt := Nat.lt_log2_self (n := m)
    rwa [ht, show t + 52 + 1 = 53 + t by omega] at hlt
  have hrounded := roundedMantissa_cases ((⟨m, false, false⟩ : ExtendedMantissa) >>> t)
  rw [mantissa_shiftRight] at hrounded
  have hround := round_eq_roundWithAccuracy s hpos (e := 0) (k := 0) (by omega)
  rw [Nat.pow_zero, Nat.mul_one, Int.natCast_zero, Int.sub_zero, roundWithAccuracy_eq_carry,
    htarget, Int.sub_zero, Int.toNat_natCast, Int.zero_add] at hround
  rw [hround]
  generalize ((⟨m, false, false⟩ : ExtendedMantissa) >>> t).roundedMantissa = r at hrounded ⊢
  dsimp only at hrounded
  by_cases hr : r < 2 ^ 53
  · have hrpos : 0 < r := by omega
    have hrlog : r.log2 = 52 := (Nat.log2_eq_iff hrpos.ne').2 ⟨by omega, hr⟩
    have hfits : target r t = t := by
      rw [target_eq, hrlog]
      omega
    exact ⟨r, t, hrpos, by omega, hr, by omega, by omega, carry_of_target_eq s hrpos hfits⟩
  · obtain rfl : r = 2 ^ 53 := by omega
    exact ⟨2 ^ 52, t + 1, by decide, Nat.le_refl _, by decide, by omega, by omega,
      carry_two_pow s (by omega)⟩

end ScriptOps.Rounding
