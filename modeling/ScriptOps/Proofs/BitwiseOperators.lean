import Mathlib.Data.Int.Bitwise
import ScriptOps.Proofs.Folding
import ScriptOps.Proofs.NumberRoundTrip

/-!
# Bitwise operators and shifts

Bitwise operators compute on the whole parts of their operands modulo `2 ^ 32`, as exact integers:
the bits are those of the two's complement, a shift to the left multiplies and reduces, and a shift
to the right divides and rounds down. `Binary.value` is the exact number that a double stands for,
and `towardZero` takes its whole part.
-/

namespace ScriptOps

/-! ### Bits of integers in two's complement -/

/-- Integers with the same bits are equal. -/
theorem int_eq_of_testBit_eq {a b : ℤ} (h : ∀ i, a.testBit i = b.testBit i) : a = b := by
  -- a natural number has zeros in the end, and a negative one has ones
  have hmixed (m n : ℕ) : ¬∀ i, (Int.ofNat m).testBit i = (Int.negSucc n).testBit i := by
    intro hbits
    have hi := hbits (m + n)
    have hm : m.testBit (m + n) = false := Nat.testBit_lt_two_pow
      ((Nat.lt_two_pow_self).trans_le (Nat.pow_le_pow_right two_pos (Nat.le_add_right m n)))
    have hn : n.testBit (m + n) = false := Nat.testBit_lt_two_pow
      ((Nat.lt_two_pow_self).trans_le (Nat.pow_le_pow_right two_pos (Nat.le_add_left n m)))
    simp [Int.testBit, hm, hn] at hi
  cases a with
  | ofNat m =>
    cases b with
    | ofNat n => exact congrArg Int.ofNat (Nat.eq_of_testBit_eq h)
    | negSucc n => exact absurd h (hmixed m n)
  | negSucc m =>
    cases b with
    | ofNat n => exact absurd (fun i => (h i).symm) (hmixed n m)
    | negSucc n =>
      exact congrArg Int.negSucc (Nat.eq_of_testBit_eq fun i => Bool.not_inj (h i))

/-- A word stands for an integer with the same bits, the first one repeated without end. -/
theorem testBit_toInt {w : ℕ} (x : BitVec w) (i : ℕ) :
    x.toInt.testBit i = if i < w then x.getLsbD i else x.msb := by
  cases hmsb : x.msb with
  | false =>
    rw [BitVec.toInt_eq_toNat_of_msb hmsb]
    change x.toNat.testBit i = _
    rw [BitVec.testBit_toNat]
    split
    · rfl
    · next hi => exact BitVec.getLsbD_of_ge x i (not_lt.1 hi)
  | true =>
    have hint : x.toInt = Int.negSucc (~~~x).toNat := by
      have hlt := x.isLt
      rw [BitVec.toInt_eq_msb_cond, hmsb, if_pos rfl, BitVec.toNat_not, Int.negSucc_eq]
      omega
    rw [hint]
    change (!(~~~x).toNat.testBit i) = _
    rw [BitVec.testBit_toNat, BitVec.getLsbD_not]
    split
    · next hi => simp [hi]
    · next hi => simp [hi]

/-- The signed value of the conjunction of two words is the conjunction of their signed values. -/
theorem toInt_land {w : ℕ} (x y : BitVec w) : (x &&& y).toInt = x.toInt.land y.toInt := by
  refine int_eq_of_testBit_eq fun i => ?_
  rw [Int.testBit_land, testBit_toInt, testBit_toInt, testBit_toInt, BitVec.getLsbD_and,
    BitVec.msb_and]
  split <;> rfl

/-- The signed value of the disjunction of two words is the disjunction of their signed values. -/
theorem toInt_lor {w : ℕ} (x y : BitVec w) : (x ||| y).toInt = x.toInt.lor y.toInt := by
  refine int_eq_of_testBit_eq fun i => ?_
  rw [Int.testBit_lor, testBit_toInt, testBit_toInt, testBit_toInt, BitVec.getLsbD_or,
    BitVec.msb_or]
  split <;> rfl

/-- The signed value of the exclusive disjunction of two words is that of their signed values. -/
theorem toInt_lxor {w : ℕ} (x y : BitVec w) : (x ^^^ y).toInt = x.toInt.xor y.toInt := by
  refine int_eq_of_testBit_eq fun i => ?_
  rw [Int.testBit_lxor, testBit_toInt, testBit_toInt, testBit_toInt, BitVec.getLsbD_xor,
    BitVec.msb_xor]
  split <;> rfl

/-! ### Shifts of words -/

/-- A shift by fewer than 32 places is not reduced. -/
theorem smod_toInt32 {n : UInt32} (hn : n.toNat < 32) :
    n.toInt32.toBitVec.smod 32 = n.toBitVec := by
  have hmsb : n.toBitVec.msb = false := BitVec.msb_eq_false_iff_two_mul_lt.2 (by
    change 2 * n.toNat < 2 ^ 32
    omega)
  rw [UInt32.toBitVec_toInt32, BitVec.smod_eq, hmsb]
  exact BitVec.eq_of_toNat_eq (Nat.mod_eq_of_lt hn)

/-- A shift to the left multiplies and reduces. -/
theorem toInt_shiftLeft (a : Int32) {n : UInt32} (hn : n.toNat < 32) :
    (a <<< n.toInt32).toInt = (a.toInt * 2 ^ n.toNat).bmod (2 ^ 32) := by
  have hword : (a <<< n.toInt32).toInt = (a.toBitVec <<< n.toNat).toInt := by
    rw [Int32.toInt, Int32.toBitVec_shiftLeft]
    exact congrArg (fun places => (a.toBitVec <<< places).toInt) (smod_toInt32 hn)
  rw [hword, BitVec.toInt_shiftLeft, Int32.toInt, BitVec.toInt_eq_toNat_bmod a.toBitVec,
    Int.bmod_mul_bmod, Nat.shiftLeft_eq]
  push_cast
  rfl

/-- A shift to the right that keeps the sign divides and rounds down. -/
theorem toInt_shiftRight (a : Int32) {n : UInt32} (hn : n.toNat < 32) :
    (a >>> n.toInt32).toInt = a.toInt / 2 ^ n.toNat := by
  have hword : (a >>> n.toInt32).toInt = (a.toBitVec.sshiftRight n.toNat).toInt := by
    rw [Int32.toInt, Int32.toBitVec_shiftRight, smod_toInt32 hn]
    rfl
  rw [hword, BitVec.toInt_sshiftRight, Int.shiftRight_eq_div_pow]
  push_cast
  rfl

/-- A shift to the right that fills with zeros divides the unsigned word. -/
theorem toNat_shiftRight (u : UInt32) {n : UInt32} (hn : n.toNat < 32) :
    (u >>> n).toNat = u.toNat / 2 ^ n.toNat := by
  rw [UInt32.toNat_shiftRight, Nat.mod_eq_of_lt hn, Nat.shiftRight_eq_div_pow]

/-! ### Exact values -/

/-- The exact number that a finite double stands for. -/
def Binary.value (b : Binary) : ℚ :=
  if b.negative then -b.magnitude else b.magnitude

/-- The whole part of a number: rounding goes toward zero. -/
def towardZero (x : ℚ) : ℤ :=
  if 0 ≤ x then ⌊x⌋ else ⌈x⌉

namespace Binary

/-- The whole magnitude is the magnitude rounded down. -/
theorem wholeMagnitude_eq_floor (b : Binary) : (b.wholeMagnitude : ℤ) = ⌊b.magnitude⌋ := by
  unfold wholeMagnitude magnitude
  split
  · next he =>
    obtain ⟨k, hk⟩ := Int.eq_ofNat_of_zero_le he
    have hvalue : (b.mantissa * 2 ^ b.exponent : ℚ) = ((b.mantissa * 2 ^ k : ℕ) : ℤ) := by
      rw [hk, zpow_natCast]
      push_cast
      rfl
    rw [hvalue, Int.floor_intCast, hk, Int.toNat_natCast]
  · next he =>
    obtain ⟨k, hk⟩ : ∃ k : ℕ, b.exponent = -k := ⟨(-b.exponent).toNat, by omega⟩
    have hvalue : (b.mantissa * 2 ^ b.exponent : ℚ) = (b.mantissa : ℤ) / ((2 ^ k : ℕ) : ℚ) := by
      rw [hk, zpow_neg, zpow_natCast, ← div_eq_mul_inv]
      push_cast
      rfl
    rw [hvalue, Rat.floor_intCast_div_natCast, hk, neg_neg, Int.toNat_natCast]
    push_cast
    rfl

/-- The whole part in integer arithmetic is that of the exact value. -/
theorem truncate_eq_towardZero (b : Binary) : b.truncate = towardZero b.value := by
  have hnonneg := b.magnitude_nonneg
  rw [truncate, b.wholeMagnitude_eq_floor, value, towardZero]
  cases b.negative with
  | false => simp [hnonneg]
  | true =>
    rcases hnonneg.eq_or_lt with hzero | hpos
    · simp [← hzero]
    · have hneg : ¬0 ≤ -b.magnitude := by linarith
      simp [hneg, Int.ceil_neg]

/-- The value of an integer as a binary number is the integer. -/
theorem value_ofInt (i : ℤ) (k : ℕ) : (ofInt i k).value = i := by
  have hmagnitude : (ofInt i k).magnitude = i.natAbs := by
    rw [magnitude, ofInt]
    simp only [zpow_neg, zpow_natCast]
    push_cast
    field_simp
  have habs : ((i.natAbs : ℕ) : ℚ) = |(i : ℚ)| := by
    rw [Nat.cast_natAbs, Int.cast_abs]
  rw [value, hmagnitude, habs]
  by_cases hi : i < 0
  · have hcast : (i : ℚ) < 0 := by exact_mod_cast hi
    simp [ofInt, hi, abs_of_neg hcast]
  · have hcast : 0 ≤ (i : ℚ) := by exact_mod_cast not_lt.1 hi
    simp [ofInt, hi, abs_of_nonneg hcast]

end Binary

/-! ### Residues of operands -/

/-- The residue without a sign is the exact one. -/
theorem toNat_residueUInt32 {x : Float} {b : Binary} (hb : Binary.ofFloat? x = some b) :
    ((residueUInt32 x).toNat : ℤ) = towardZero b.value % 2 ^ 32 := by
  rw [residueUInt32_eq, wholePart_of_ofFloat? hb, b.truncate_eq_towardZero,
    UInt32.toNat_ofBitVec, BitVec.toNat_ofInt]
  exact Int.toNat_of_nonneg (Int.emod_nonneg _ (by decide))

/-- The residue with a sign is the exact one. -/
theorem toInt_residueInt32 {x : Float} {b : Binary} (hb : Binary.ofFloat? x = some b) :
    (residueInt32 x).toInt = (towardZero b.value).bmod (2 ^ 32) := by
  rw [residueInt32_eq, wholePart_of_ofFloat? hb, b.truncate_eq_towardZero, Int32.toInt_ofInt]
  rfl

namespace Primitive

variable {p q : Primitive} {x y : Float}

/-- A primitive with a number is converted to 32 bits by the residue of the number. -/
theorem toInt32_of_float? (h : p.float? = some x) : p.toInt32 = residueInt32 x := by
  cases p with
  | int i =>
    obtain rfl := Option.some.inj h
    exact (residueInt32_floatOfInt i).symm
  | number z =>
    obtain rfl := Option.some.inj h
    rfl
  | _ => nomatch h

/-- The unsigned conversion takes the unsigned residue. -/
theorem toUInt32_of_float? (h : p.float? = some x) : p.toUInt32 = residueUInt32 x := by
  cases p with
  | int i =>
    obtain rfl := Option.some.inj h
    exact (residueUInt32_floatOfInt i).symm
  | number z =>
    obtain rfl := Option.some.inj h
    rfl
  | _ => nomatch h

/-- An integer of 32 bits is its own canonical representation. -/
theorem ofInt_toInt (i : Int32) : ofInt i.toInt = int i := by
  rw [ofInt, if_pos ⟨i.le_toInt, i.toInt_lt⟩, Int32.ofInt_toInt]

/-- The places of a shift are the residue of its right operand modulo 32, with either sign. -/
theorem toNat_shiftCount (h : q.float? = some y) :
    q.shiftCount.toNat = ((residueInt32 y).toInt % 32).toNat := by
  have hmask : q.shiftCount.toNat = q.toUInt32.toNat % 2 ^ 5 := Nat.and_two_pow_sub_one_eq_mod _ 5
  rw [hmask, toUInt32_of_float? h, residueUInt32_eq, residueInt32_eq, Int32.toInt_ofInt,
    UInt32.toNat_ofBitVec, BitVec.toNat_ofInt, Int.bmod_def]
  simp only [Int32.size]
  omega

end Primitive

/-! ### Operators on numbers -/

/-- The operator gives a number that is exactly the integer, in the canonical representation. It
changes nothing, whether or not host types overload operators. -/
def Eval.Computes (s : Settings) (op : BinaryOp) (p q : Primitive) (i : ℤ) : Prop :=
  (∀ m, operate s op p q m = .ok (Primitive.ofInt i) m) ∧
    ∃ x b, (Primitive.ofInt i).float? = some x ∧ Binary.ofFloat? x = some b ∧ b.value = i

namespace Eval.Computes

variable {s : Settings} {op : BinaryOp} {p q : Primitive} {i : ℤ}

/-- An operator on primitives depends on nothing else, and integers of 53 bits are exact. -/
theorem of_fold? (hi : i.natAbs < 2 ^ 53) (h : op.fold? p q = some (.ofInt i)) :
    Computes s op p q i := by
  refine ⟨fun m => congrFun (operate_of_fold? s op h) m, ?_⟩
  obtain ⟨k, hk⟩ := Binary.ofFloat?_floatOfInt hi
  refine ⟨floatOfInt i, _, ?_, hk, Binary.value_ofInt i k⟩
  rw [Primitive.ofInt]
  split
  · next hrange =>
    have htoInt : (Int32.ofInt i).toInt = i := Int32.toInt_ofInt_of_le hrange.1 hrange.2
    exact congrArg (some <| floatOfInt ·) htoInt
  · rfl

/-- An operator that folds to a word computes the integer that the word denotes. -/
theorem of_fold?_int {r : Int32} (hr : r.toInt = i) (h : op.fold? p q = some (.int r)) :
    Computes s op p q i := by
  subst hr
  exact of_fold? (natAbs_toInt_lt r) (h.trans (congrArg some (Primitive.ofInt_toInt r).symm))

end Eval.Computes

open Eval in
/-- Bitwise operators and shifts compute modulo `2 ^ 32`. The residues of a finite double are those
of the whole part of its exact value, of any magnitude, and those of a NaN or an infinity are zero.
On two numbers of either representation, with `a` and `b` for their signed residues and `c` for `b`
modulo 32: the bitwise operators work on the two's complement of `a` and `b`, a shift to the left
gives `a * 2 ^ c` reduced to the signed range, and the shifts to the right divide the signed or the
unsigned residue by `2 ^ c` and round down. -/
theorem bitwise_operators_modular :
    (∀ x : Float,
      (x.isFinite → ∃ b, Binary.ofFloat? x = some b ∧
        (residueUInt32 x).toNat = towardZero b.value % 2 ^ 32 ∧
        (residueInt32 x).toInt = (towardZero b.value).bmod (2 ^ 32)) ∧
      (x.isFinite = false → residueUInt32 x = 0 ∧ residueInt32 x = 0)) ∧
    ∀ (s : Settings) (p q : Primitive) (x y : Float), p.float? = some x → q.float? = some y →
      let a := (residueInt32 x).toInt
      let b := (residueInt32 y).toInt
      let c := (b % 32).toNat;
      Computes s .bitAnd p q (a.land b) ∧
      Computes s .bitOr p q (a.lor b) ∧
      Computes s .bitXor p q (a.xor b) ∧
      Computes s .shiftLeft p q ((a * 2 ^ c).bmod (2 ^ 32)) ∧
      Computes s .shiftRight p q (a / 2 ^ c) ∧
      Computes s .shiftRightUnsigned p q ((residueUInt32 x).toNat / 2 ^ c) := by
  refine ⟨fun x => ⟨fun hfinite => ?_, fun hinfinite => ?_⟩, fun s p q x y hx hy => ?_⟩
  · rw [isFinite_eq] at hfinite
    obtain ⟨b, hb⟩ := Option.isSome_iff_exists.1 hfinite
    exact ⟨b, hb, toNat_residueUInt32 hb, toInt_residueInt32 hb⟩
  · rw [residueUInt32, residueInt32, hinfinite]
    exact ⟨rfl, rfl⟩
  · intro a b c
    have hp : p.toInt32.toInt = a := congrArg Int32.toInt (Primitive.toInt32_of_float? hx)
    have hq : q.toInt32.toInt = b := congrArg Int32.toInt (Primitive.toInt32_of_float? hy)
    have hcount : q.shiftCount.toNat = c := Primitive.toNat_shiftCount hy
    have hlt : q.shiftCount.toNat < 32 := by omega
    rw [← hp, ← hq, ← hcount, ← Primitive.toUInt32_of_float? hx]
    refine ⟨?_, ?_, ?_, ?_, ?_, ?_⟩
    · exact .of_fold?_int (r := p.toInt32 &&& q.toInt32) (toInt_land _ _) rfl
    · exact .of_fold?_int (r := p.toInt32 ||| q.toInt32) (toInt_lor _ _) rfl
    · exact .of_fold?_int (r := p.toInt32 ^^^ q.toInt32) (toInt_lxor _ _) rfl
    · exact .of_fold?_int (toInt_shiftLeft p.toInt32 hlt) rfl
    · exact .of_fold?_int (toInt_shiftRight p.toInt32 hlt) rfl
    · -- the unsigned result may exceed the small integers, but not `2 ^ 32`
      have hquotient := toNat_shiftRight p.toUInt32 hlt
      have hbound := (p.toUInt32 >>> q.shiftCount).toNat_lt
      have hcast : ((p.toUInt32.toNat : ℤ) / 2 ^ q.shiftCount.toNat) =
          ((p.toUInt32 >>> q.shiftCount).toNat : ℤ) := by
        rw [hquotient]
        push_cast
        rfl
      rw [hcast]
      exact .of_fold? (by rw [Int.natAbs_natCast]; omega) rfl

open Eval in
/-- The number `-2 ^ 32 - 5.5` has the residue -5, and -31 places are one. -/
theorem bitwise_operators_modular_negative :
    let x : Float := -4294967301.5
    let y : Float := floatOfInt (-31)
    let p : Primitive := .number x
    let q : Primitive := .int (-31);
    x.isFinite ∧ p.float? = some x ∧ q.float? = some y ∧
      (residueInt32 x).toInt = -5 ∧
      ∀ s, Computes s .bitAnd p q (-31) ∧ Computes s .shiftRight p q (-3) ∧
        Computes s .shiftRightUnsigned p q 2147483645 := by
  intro x y p q
  have hfinite : x.isFinite := by decide +kernel
  have hp : p.float? = some x := rfl
  have hq : q.float? = some y := rfl
  have hx : (residueInt32 x).toInt = -5 := by decide +kernel
  have hx' : (residueUInt32 x).toNat = 4294967291 := by decide +kernel
  have hy : (residueInt32 y).toInt = -31 := by decide +kernel
  obtain ⟨-, hoperators⟩ := bitwise_operators_modular
  refine ⟨hfinite, hp, hq, hx, fun s => ?_⟩
  obtain ⟨hand, -, -, -, hright, hunsigned⟩ := hoperators s p q x y hp hq
  rw [hx, hy] at hand hright
  rw [hx', hy] at hunsigned
  exact ⟨hand, hright, hunsigned⟩

end ScriptOps
