import ScriptOps.Proofs.Agreement
import ScriptOps.Proofs.FastPaths

/-!
# The representation of numbers

A number may be held as an integer of 32 bits or as the double of that integer. Replacing one by the
other in an operand of a binary operator cannot be observed: the result is the same and canonical,
or the error is the same, and the heap and the trace are the same. What an operator reads of a
primitive, its double, its text, its residues, its type, is the same for both representations; and
objects are the same on both sides, so every conversion of an object is one and the same effect.
-/

namespace ScriptOps

/-! ### Primitives -/

/-- An integer may be held as its double instead. -/
inductive Primitive.Retagged : Primitive → Primitive → Prop
  | refl (p : Primitive) : Retagged p p
  | double (i : Int32) : Retagged (.int i) (.number (floatOfInt i.toInt))

namespace Primitive.Retagged

variable {p p' q q' : Primitive}

/-- The number does not depend on the representation. -/
theorem toFloat_eq (h : p.Retagged p') : p'.toFloat = p.toFloat := by
  cases h <;> rfl

/-- Neither does the type. -/
theorem type_eq (h : p.Retagged p') : p'.type = p.type := by
  cases h <;> rfl

/-- Neither does being undefined or null. -/
theorem isNullish_eq (h : p.Retagged p') : p'.isNullish = p.isNullish := by
  cases h <;> rfl

/-- A number has no text of its own in either representation. -/
theorem text?_eq (h : p.Retagged p') : p'.text? = p.text? := by
  cases h <;> rfl

/-- The text does not depend on the representation. -/
theorem toText_eq (h : p.Retagged p') : p'.toText = p.toText := by
  cases h with
  | refl => rfl
  | double i =>
    have hbound : i.toInt.natAbs < 2 ^ 52 := Nat.lt_of_le_of_lt (natAbs_toInt_le i) (by decide)
    exact numberText_floatOfInt hbound

/-- The display does not depend on it. -/
theorem display_eq (h : p.Retagged p') : p'.display = p.display := by
  cases h with
  | refl => rfl
  | double i => exact toText_eq (.double i)

/-- The conversion to 32 bits does not depend on it. -/
theorem toInt32_eq (h : p.Retagged p') : p'.toInt32 = p.toInt32 := by
  cases h with
  | refl => rfl
  | double i => exact residueInt32_floatOfInt i

/-- The unsigned conversion does not depend on it. -/
theorem toUInt32_eq (h : p.Retagged p') : p'.toUInt32 = p.toUInt32 := by
  cases h with
  | refl => rfl
  | double i => exact residueUInt32_floatOfInt i

/-- The count of a shift does not depend on it. -/
theorem shiftCount_eq (h : p.Retagged p') : p'.shiftCount = p.shiftCount := by
  rw [shiftCount, h.toUInt32_eq, shiftCount]

/-- The order of primitives does not depend on their representations. -/
theorem less?_eq (hp : p.Retagged p') (hq : q.Retagged q') : p'.less? q' = p.less? q := by
  rw [Primitive.less?_eq, Primitive.less?_eq p, hp.text?_eq, hq.text?_eq, hp.toFloat_eq,
    hq.toFloat_eq]

/-- A word on the left compares as its double does. -/
theorem strictEq_double_left (i : Int32) (q : Primitive) :
    (number (floatOfInt i.toInt)).strictEq q = (int i).strictEq q := by
  cases q with
  | int j => exact (strictEq_of_float? (p := int i) (q := int j) rfl rfl).symm
  | _ => rfl

/-- So does a word on the right. -/
theorem strictEq_double_right (p : Primitive) (i : Int32) :
    p.strictEq (number (floatOfInt i.toInt)) = p.strictEq (int i) := by
  cases p with
  | int j => exact (strictEq_of_float? (p := int j) (q := int i) rfl rfl).symm
  | _ => rfl

/-- Strict equality of primitives does not depend on their representations. -/
theorem strictEq_eq (hp : p.Retagged p') (hq : q.Retagged q') :
    p'.strictEq q' = p.strictEq q := by
  cases hp <;> cases hq
  · rfl
  · exact strictEq_double_right _ _
  · exact strictEq_double_left _ _
  · rw [strictEq_double_left, strictEq_double_right]

/-- Loose equality of primitives does not depend on them. -/
theorem looseEq_eq (hp : p.Retagged p') (hq : q.Retagged q') : p'.looseEq q' = p.looseEq q := by
  rw [looseEq, looseEq, hp.type_eq, hq.type_eq, strictEq_eq hp hq, hp.isNullish_eq, hq.isNullish_eq,
    hp.toFloat_eq, hq.toFloat_eq]

/-- The results on primitives are the same. -/
theorem compute?_eq (op : BinaryOp) (hp : p.Retagged p') (hq : q.Retagged q') :
    op.compute? p' q' = op.compute? p q := by
  cases op <;> rw [BinaryOp.compute?, BinaryOp.compute?]
  case strictEq | strictNotEq => rw [strictEq_eq hp hq]
  case looseEq | looseNotEq => rw [looseEq_eq hp hq]
  case less | greaterEq => rw [less?_eq hp hq]
  case greater | lessEq => rw [less?_eq hq hp]
  case add =>
    rw [add_eq, add_eq p, hp.text?_eq, hq.text?_eq, hp.toText_eq, hq.toText_eq, hp.toFloat_eq,
      hq.toFloat_eq]
  case sub => rw [sub_eq, sub_eq p, hp.toFloat_eq, hq.toFloat_eq]
  case mul => rw [mul_eq, mul_eq p, hp.toFloat_eq, hq.toFloat_eq]
  case div => rw [div, div, hp.toFloat_eq, hq.toFloat_eq]
  case rem => rw [rem_eq, rem_eq p, hp.toFloat_eq, hq.toFloat_eq]
  case exp => rw [exp, exp, hp.toFloat_eq, hq.toFloat_eq]
  case bitAnd => rw [bitAnd, bitAnd, hp.toInt32_eq, hq.toInt32_eq]
  case bitOr => rw [bitOr, bitOr, hp.toInt32_eq, hq.toInt32_eq]
  case bitXor => rw [bitXor, bitXor, hp.toInt32_eq, hq.toInt32_eq]
  case shiftLeft =>
    rw [Primitive.shiftLeft, Primitive.shiftLeft, hp.toInt32_eq, hq.shiftCount_eq]
  case shiftRight =>
    rw [Primitive.shiftRight, Primitive.shiftRight, hp.toInt32_eq, hq.shiftCount_eq]
  case shiftRightUnsigned =>
    rw [shiftRightUnsigned, shiftRightUnsigned, hp.toUInt32_eq, hq.shiftCount_eq]

end Primitive.Retagged

/-- Undefined absorbs products and remainders. -/
theorem BinaryOp.isAbsorbed_eq_type (op : BinaryOp) (l r : Value) :
    op.isAbsorbed l r =
      ((op == .mul || op == .rem) && (l.type == .undefined || r.type == .undefined)) := by
  cases op
  case mul | rem =>
    rcases l with (_ | _ | _ | _ | _ | _) | _ <;> rcases r with (_ | _ | _ | _ | _ | _) | _ <;> rfl
  all_goals rfl

/-! ### Values -/

/-- A number that is an integer may be held as its double instead. Objects stay. -/
inductive Value.Retagged : Value → Value → Prop
  | primitive {p p' : Primitive} (h : p.Retagged p') : Retagged p p'
  | object (id : ObjectId) : Retagged (.object id) (.object id)

namespace Value.Retagged

variable {l l' r r' v v' : Value}

/-- A value is a representation of itself. -/
theorem refl (v : Value) : v.Retagged v := by
  cases v with
  | primitive p => exact .primitive (.refl p)
  | object id => exact .object id

/-- What follows a conversion sees representations of one number. -/
theorem toPrimitive_bind (h : v.Retagged v') (host : Host) (hint : Hint) {α : Type}
    {f f' : Primitive → Action α} (hf : ∀ {p p'}, p.Retagged p' → f' p' = f p) :
    host.toPrimitive hint v' >>= f' = host.toPrimitive hint v >>= f := by
  cases h with
  | primitive h => exact hf h
  | object id => exact congrArg _ (funext fun p => hf (.refl p))

/-- The type of a value does not depend on its representation. -/
theorem type_eq (h : v.Retagged v') : v'.type = v.type := by
  cases h with
  | primitive h => exact h.type_eq
  | object id => rfl

/-- The display of a value does not depend on it. -/
theorem display_eq (h : v.Retagged v') (heap : Heap) : heap.display v' = heap.display v := by
  cases h with
  | primitive h => exact h.display_eq
  | object id => rfl

/-- The key of a value does not depend on it. -/
theorem toPropertyKey_eq (h : v.Retagged v') (host : Host) :
    host.toPropertyKey v' = host.toPropertyKey v :=
  h.toPrimitive_bind host .string fun hp => congrArg pure hp.toText_eq

/-- Absorption does not depend on the representations of the operands. -/
theorem isAbsorbed_eq (hl : l.Retagged l') (hr : r.Retagged r') (op : BinaryOp) :
    op.isAbsorbed l' r' = op.isAbsorbed l r := by
  rw [BinaryOp.isAbsorbed_eq_type, BinaryOp.isAbsorbed_eq_type, hl.type_eq, hr.type_eq]

/-- The operators on primitives do not depend on them. -/
theorem convertAndCompute_eq (hl : l.Retagged l') (hr : r.Retagged r') (op : BinaryOp)
    (host : Host) : op.convertAndCompute host l' r' = op.convertAndCompute host l r := by
  rw [BinaryOp.convertAndCompute, BinaryOp.convertAndCompute, isAbsorbed_eq hl hr]
  split
  · rfl
  · simp only [Host.toPrimitives, bind_assoc, pure_bind]
    refine hl.toPrimitive_bind host _ fun hp => hr.toPrimitive_bind host _ fun hq => ?_
    rw [Primitive.Retagged.compute?_eq op hp hq]

/-- Strict equality does not depend on them. -/
theorem strictEquals_eq (hl : l.Retagged l') (hr : r.Retagged r') (host : Host) :
    host.strictEquals l' r' = host.strictEquals l r := by
  cases hl with
  | primitive hp =>
    cases hr with
    | primitive hq =>
      rw [Host.strictEquals, Host.strictEquals]
      simp only [Host.strictEq, hp.strictEq_eq hq]
      rfl
    | object id => rfl
  | object id => cases hr <;> rfl

/-- Loose equality does not depend on them. -/
theorem looseEquals_eq (hl : l.Retagged l') (hr : r.Retagged r') (host : Host) :
    host.looseEquals l' r' = host.looseEquals l r := by
  cases hl with
  | primitive hp =>
    cases hr with
    | primitive hq =>
      rw [Host.looseEquals, Host.looseEquals, Primitive.Retagged.looseEq_eq hp hq]
    | object id =>
      rw [Host.looseEquals, Host.looseEquals, hp.isNullish_eq]
      simp only [hp.looseEq_eq (.refl _)]
  | object id =>
    cases hr with
    | primitive hq =>
      rw [Host.looseEquals, Host.looseEquals, hq.isNullish_eq]
      simp only [(Primitive.Retagged.refl _).looseEq_eq hq]
    | object id => rfl

/-- The operator `instanceof` does not depend on them. -/
theorem isInstanceOf_eq (hl : l.Retagged l') (hr : r.Retagged r') :
    isInstanceOf l' r' = isInstanceOf l r := by
  cases hr with
  | primitive hq =>
    rw [isInstanceOf, isInstanceOf]
    simp only [hq.display_eq]
  | object id => cases hl <;> rfl

/-- Membership does not depend on them. -/
theorem isMember_eq (hl : l.Retagged l') (hr : r.Retagged r') (host : Host) :
    isMember host l' r' = isMember host l r := by
  cases hr with
  | primitive hq =>
    rw [isMember, isMember]
    simp only [hl.display_eq, hq.display_eq]
  | object id =>
    rw [isMember, isMember]
    simp only [hl.toPropertyKey_eq]

/-- The operators do not tell the representations apart. -/
theorem evaluate_eq (hl : l.Retagged l') (hr : r.Retagged r') (op : BinaryOp) (host : Host) :
    op.evaluate host l' r' = op.evaluate host l r := by
  cases op
  case strictEq | strictNotEq =>
    simp only [BinaryOp.evaluate, strictEquals_eq hl hr]
  case looseEq | looseNotEq =>
    simp only [BinaryOp.evaluate, looseEquals_eq hl hr]
  case instanceOf =>
    simp only [BinaryOp.evaluate, isInstanceOf_eq hl hr]
  case membership =>
    simp only [BinaryOp.evaluate, isMember_eq hl hr]
  all_goals exact convertAndCompute_eq hl hr _ host

end Value.Retagged

/-! ### Canonical results -/

/-- A number among the values is canonical. -/
def Value.IsCanonical (v : Value) : Prop :=
  ∀ x : Float, v = Primitive.number x → ∀ i : Int32, x ≠ floatOfInt i.toInt

/-- A canonical primitive is a canonical value. -/
theorem Value.isCanonical_primitive {p : Primitive} (h : p.IsCanonical) :
    (p : Value).IsCanonical := by
  rintro x ⟨⟩
  exact h x rfl

/-- A value that is computed from the result of an effect is canonical if all such values are. -/
theorem isCanonical_of_bind {α : Type} {x : Action α} {f : α → Value} {w w' : World} {v : Value}
    (hf : ∀ a, (f a).IsCanonical) (h : (x >>= fun a => pure (f a)) w = .ok v w') :
    v.IsCanonical := by
  obtain ⟨a, u, -, hpure⟩ := ok_of_bind h
  cases hpure
  exact hf a

/-- The operators on primitives give canonical values. -/
theorem isCanonical_of_convertAndCompute {op : BinaryOp} {host : Host} {l r v : Value}
    {w w' : World} (h : op.convertAndCompute host l r w = .ok v w') : v.IsCanonical := by
  rw [BinaryOp.convertAndCompute] at h
  split at h
  · cases h
    rintro x ⟨⟩
  · refine isCanonical_of_bind (fun operands => Value.isCanonical_primitive ?_) h
    cases hresult : op.compute? operands.1 operands.2 with
    | some result => exact Primitive.isCanonical_of_compute? hresult
    | none => rintro x ⟨⟩

/-- The operators give canonical results. -/
theorem isCanonical_of_evaluate {op : BinaryOp} {host : Host} {l r v : Value} {w w' : World}
    (h : op.evaluate host l r w = .ok v w') : v.IsCanonical := by
  cases op
  case strictEq | strictNotEq | looseEq | looseNotEq | instanceOf | membership =>
    exact isCanonical_of_bind
      (fun b => Value.isCanonical_primitive (Primitive.isCanonical_bool _)) h
  all_goals exact isCanonical_of_convertAndCompute h

/-! ### The representation is not observable -/

/-- Replacing integers in the operands by their doubles, on either side or on both, leaves the
outcome of an operator in every world as it is: the value or the error, the heap and the trace. The
value is canonical. -/
theorem evaluate_retagged (op : BinaryOp) (host : Host) {l l' r r' : Value} (hl : l.Retagged l')
    (hr : r.Retagged r') :
    op.evaluate host l' r' = op.evaluate host l r ∧
      ∀ w v w', op.evaluate host l r w = .ok v w' → v.IsCanonical :=
  ⟨hl.evaluate_eq hr op host, fun _ _ _ h => isCanonical_of_evaluate h⟩

/-- The product of `0` and `-5` is negative zero, also where `0` is held as a double. -/
theorem evaluate_retagged_negative_zero :
    let host : Host := ⟨fun _ _ => .answer .undefined, fun _ => false, fun _ => none, 0⟩
    let w : World := ⟨.empty, []⟩
    let zero : Value := Primitive.number (floatOfInt (Int32.toInt 0))
    let ofIntegers := BinaryOp.mul.evaluate host (Primitive.int 0) (Primitive.int (-5))
    BinaryOp.mul.evaluate host zero (Primitive.int (-5)) = ofIntegers ∧
      ofIntegers w = .ok (Primitive.number negativeZero) w ∧
      Value.IsCanonical (Primitive.number negativeZero) := by
  intro host w zero ofIntegers
  have h := evaluate_retagged .mul host (.primitive (.double 0)) (.refl (Primitive.int (-5)))
  have hvalue : ofIntegers w = .ok (Primitive.number negativeZero) w := rfl
  exact ⟨h.1, hvalue, h.2 w _ w hvalue⟩

end ScriptOps
