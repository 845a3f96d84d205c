import ScriptOps.BinaryOperation
import ScriptOps.Proofs.IntegerText
import ScriptOps.Proofs.Residues

/-!
# Operators without fast paths

An operator that meets two integers of 32 bits computes on them directly; any other operands go
through doubles and texts. Both ways agree: each operator is a function of the doubles and the texts
of its operands, with no case for integers left. Its results are canonical: a number is held as a
double only if it is the double of no integer of 32 bits.
-/

namespace ScriptOps

/-! ### The range -/

/-- A word of 32 bits is at most `2 ^ 31` in magnitude. -/
theorem natAbs_toInt_le (i : Int32) : i.toInt.natAbs ≤ 2 ^ 31 := by
  have hlower := i.le_toInt
  have hupper := i.toInt_lt
  omega

/-- So it is exact as a double. -/
theorem natAbs_toInt_lt (i : Int32) : i.toInt.natAbs < 2 ^ 53 :=
  Nat.lt_of_le_of_lt (natAbs_toInt_le i) (by decide)

/-- The product of two words is at most `2 ^ 62` in magnitude. -/
theorem natAbs_mul_toInt_le (a b : Int32) : (a.toInt * b.toInt).natAbs ≤ 2 ^ 31 * 2 ^ 31 := by
  rw [Int.natAbs_mul]
  exact Nat.mul_le_mul (natAbs_toInt_le a) (natAbs_toInt_le b)

/-- A word is read back from its double. -/
theorem exactInt32?_floatOfInt_toInt (i : Int32) : exactInt32? (floatOfInt i.toInt) = some i := by
  rw [exactInt32?_floatOfInt ⟨i.le_toInt, i.toInt_lt⟩, Int32.ofInt_toInt]

/-- It is the residue of its double. -/
theorem residueInt32_floatOfInt (i : Int32) : residueInt32 (floatOfInt i.toInt) = i := by
  rw [residueInt32_eq, wholePart_floatOfInt (natAbs_toInt_lt i), Int32.ofInt_toInt]

/-- Its unsigned form is the unsigned residue of its double. -/
theorem residueUInt32_floatOfInt (i : Int32) : residueUInt32 (floatOfInt i.toInt) = i.toUInt32 := by
  rw [residueUInt32_eq, wholePart_floatOfInt (natAbs_toInt_lt i)]
  exact congrArg UInt32.ofBitVec BitVec.ofInt_toInt

namespace Primitive

/-! ### Each operator through doubles and texts -/

/-- The string of a string. -/
def text? : Primitive → Option String
  | str s => some s
  | _ => none

/-- Sums of integers are those of their doubles. -/
theorem add_eq (p q : Primitive) :
    p.add q = if p.text?.isSome || q.text?.isSome then str (p.toText ++ q.toText)
      else ofFloat (p.toFloat + q.toFloat) := by
  cases p with
  | int a =>
    cases q with
    | int b =>
      have ha := natAbs_toInt_le a
      have hb := natAbs_toInt_le b
      change ofInt (a.toInt + b.toInt) = ofFloat (floatOfInt a.toInt + floatOfInt b.toInt)
      rw [floatOfInt_add (natAbs_toInt_lt a) (natAbs_toInt_lt b), ofFloat_floatOfInt (by omega)]
    | _ => rfl
  | _ => cases q <;> rfl

/-- Differences of integers are those of their doubles. -/
theorem sub_eq (p q : Primitive) : p.sub q = ofFloat (p.toFloat - q.toFloat) := by
  cases p with
  | int a =>
    cases q with
    | int b =>
      have ha := natAbs_toInt_le a
      have hb := natAbs_toInt_le b
      change ofInt (a.toInt - b.toInt) = ofFloat (floatOfInt a.toInt - floatOfInt b.toInt)
      rw [floatOfInt_sub (natAbs_toInt_lt a) (natAbs_toInt_lt b), ofFloat_floatOfInt (by omega)]
    | _ => rfl
  | _ => cases q <;> rfl

/-- Products of integers are those of their doubles, also where they are rounded and where a zero is
negative. -/
theorem mul_eq (p q : Primitive) : p.mul q = ofFloat (p.toFloat * q.toFloat) := by
  cases p with
  | int a =>
    cases q with
    | int b =>
      have hproduct := natAbs_mul_toInt_le a b
      have hsign : (a < 0 ∨ b < 0) ↔ (a.toInt < 0 ∨ b.toInt < 0) := by
        rw [Int32.lt_iff_toInt_lt, Int32.lt_iff_toInt_lt]
        rfl
      change (if a.toInt * b.toInt = 0 ∧ (a < 0 ∨ b < 0) then number negativeZero
        else ofInt (a.toInt * b.toInt)) = ofFloat (floatOfInt a.toInt * floatOfInt b.toInt)
      rw [floatOfInt_mul (natAbs_toInt_lt a) (natAbs_toInt_lt b)]
      simp only [hsign]
      split
      · exact ofFloat_negativeZero.symm
      · exact (ofFloat_floatOfInt (by omega)).symm
    | _ => rfl
  | _ => cases q <;> rfl

/-- Remainders of integers are those of their doubles. -/
theorem rem_eq (p q : Primitive) : p.rem q = ofFloat (floatRemainder p.toFloat q.toFloat) := by
  cases p with
  | int a =>
    cases q with
    | int b =>
      change (if 0 < a ∧ b ≠ 0 then int (.ofInt (a.toInt.tmod b.toInt))
        else ofFloat (floatRemainder (floatOfInt a.toInt) (floatOfInt b.toInt))) = _
      split
      · next h =>
        have hdividend : 0 ≤ a.toInt := Int.le_of_lt (Int32.lt_iff_toInt_lt.1 h.1)
        have hdivisor : b.toInt ≠ 0 := fun hzero => h.2 (Int32.toInt_inj.1 hzero)
        have hupper := a.toInt_lt
        have hsign := Int.tmod_nonneg b.toInt hdividend
        have hremainder : (a.toInt.tmod b.toInt).natAbs ≤ a.toInt.natAbs := by
          rw [Int.natAbs_tmod]
          exact Nat.mod_le _ _
        change _ = ofFloat (floatRemainder (floatOfInt a.toInt) (floatOfInt b.toInt))
        rw [floatRemainder_floatOfInt hdividend (natAbs_toInt_lt a) hdivisor (natAbs_toInt_lt b),
          ofFloat_floatOfInt (by omega), ofInt, if_pos (by omega)]
      · rfl
    | _ => rfl
  | _ => cases q <;> rfl

/-- The order of integers is that of their doubles. -/
theorem less?_eq (p q : Primitive) :
    p.less? q = match p.text?, q.text? with
      | some a, some b => some (Utf16.compare a b == .lt)
      | _, _ => if p.toFloat.isNaN || q.toFloat.isNaN then none
        else some (p.toFloat < q.toFloat) := by
  cases p with
  | int a =>
    cases q with
    | int b =>
      have hleft := isNaN_floatOfInt (natAbs_toInt_lt a)
      have hright := isNaN_floatOfInt (natAbs_toInt_lt b)
      change some (decide (a < b)) =
        if (floatOfInt a.toInt).isNaN || (floatOfInt b.toInt).isNaN then none
        else some (decide (floatOfInt a.toInt < floatOfInt b.toInt))
      rw [hleft, hright]
      simp only [Bool.or_self, Bool.false_eq_true, if_false, Int32.lt_iff_toInt_lt,
        floatOfInt_lt (natAbs_toInt_lt a) (natAbs_toInt_lt b)]
    | _ => rfl
  | _ => cases q <;> rfl

/-- The equality of integers is that of their doubles. -/
theorem strictEq_of_float? {p q : Primitive} {x y : Float} (hp : p.float? = some x)
    (hq : q.float? = some y) : p.strictEq q = (x == y) := by
  cases p <;> cases q <;> cases hp <;> cases hq
  · next a b =>
    change (a == b) = _
    rw [floatOfInt_beq (natAbs_toInt_lt a) (natAbs_toInt_lt b), Bool.eq_iff_iff, beq_iff_eq,
      beq_iff_eq, Int32.toInt_inj]
  all_goals rfl

/-! ### Canonical results -/

/-- A number is held as a double only if it is the double of no integer of 32 bits. Negative zero is
not the double of zero. -/
def IsCanonical (p : Primitive) : Prop :=
  ∀ x, p = number x → ∀ i : Int32, x ≠ floatOfInt i.toInt

theorem isCanonical_int (i : Int32) : (int i).IsCanonical := by
  rintro x ⟨⟩

theorem isCanonical_bool (b : Bool) : (bool b).IsCanonical := by
  rintro x ⟨⟩

/-- A number made from a double is canonical. -/
theorem isCanonical_ofFloat (x : Float) : (ofFloat x).IsCanonical := by
  rw [ofFloat]
  cases hexact : exactInt32? x with
  | some i => exact isCanonical_int i
  | none =>
    rintro y ⟨⟩ i rfl
    rw [exactInt32?_floatOfInt_toInt] at hexact
    cases hexact

/-- A number made from an integer is canonical. -/
theorem isCanonical_ofInt {i : Int} (hi : i.natAbs < 2 ^ 64) : (ofInt i).IsCanonical := by
  rw [← ofFloat_floatOfInt hi]
  exact isCanonical_ofFloat _

/-- A sum is canonical. -/
theorem isCanonical_add (p q : Primitive) : (p.add q).IsCanonical := by
  rw [add_eq]
  split
  · rintro x ⟨⟩
  · exact isCanonical_ofFloat _

/-- So is an unsigned shift. -/
theorem isCanonical_shiftRightUnsigned (p q : Primitive) :
    (p.shiftRightUnsigned q).IsCanonical := by
  have hbound := (p.toUInt32 >>> q.shiftCount).toNat_lt
  refine isCanonical_ofInt ?_
  rw [Int.natAbs_natCast]
  exact hbound.trans (by decide)

/-- Every operator gives a canonical result. -/
theorem isCanonical_of_compute? {op : BinaryOp} {p q result : Primitive}
    (h : op.compute? p q = some result) : result.IsCanonical := by
  cases op <;> simp only [BinaryOp.compute?, Option.some_inj, reduceCtorEq] at h <;> subst h
  case add => exact isCanonical_add p q
  case sub =>
    rw [sub_eq]
    exact isCanonical_ofFloat _
  case mul =>
    rw [mul_eq]
    exact isCanonical_ofFloat _
  case rem =>
    rw [rem_eq]
    exact isCanonical_ofFloat _
  case div | exp => exact isCanonical_ofFloat _
  case bitAnd | bitOr | bitXor | shiftLeft | shiftRight => exact isCanonical_int _
  case shiftRightUnsigned => exact isCanonical_shiftRightUnsigned p q
  all_goals exact isCanonical_bool _

end Primitive

end ScriptOps
