import ScriptOps.Number.Power
import ScriptOps.Text.Utf16
import ScriptOps.Value

/-!
# Operators on primitives

What the operators compute once their operands are primitive. Two integers of 32 bits are computed
exactly; all other operands through doubles. The results are canonical, so the representation of an
operand never shows in a result.
-/

namespace ScriptOps.Primitive

/-! ### Arithmetic -/

/-- Concatenates when an operand is a string, and adds otherwise. -/
def add : Primitive → Primitive → Primitive
  | int a, int b => ofInt (a.toInt + b.toInt)
  | str a, q => str (a ++ q.toText)
  | p, str b => str (p.toText ++ b)
  | p, q => ofFloat (p.toFloat + q.toFloat)

/-- The difference. -/
def sub : Primitive → Primitive → Primitive
  | int a, int b => ofInt (a.toInt - b.toInt)
  | p, q => ofFloat (p.toFloat - q.toFloat)

/-- The product. A zero that comes from a negative factor is negative. -/
def mul : Primitive → Primitive → Primitive
  | int a, int b =>
    let product := a.toInt * b.toInt
    if product = 0 ∧ (a < 0 ∨ b < 0) then number negativeZero else ofInt product
  | p, q => ofFloat (p.toFloat * q.toFloat)

/-- The quotient. -/
def div (p q : Primitive) : Primitive :=
  ofFloat (p.toFloat / q.toFloat)

/-- The remainder, computed exactly for a positive integer and a nonzero one. -/
def rem (p q : Primitive) : Primitive :=
  let rounded := ofFloat (floatRemainder p.toFloat q.toFloat)
  match p, q with
  | int a, int b => if 0 < a ∧ b ≠ 0 then int (.ofInt (a.toInt.tmod b.toInt)) else rounded
  | _, _ => rounded

/-- The power. -/
def exp (p q : Primitive) : Primitive :=
  ofFloat (power p.toFloat q.toFloat)

/-! ### Bits -/

/-- The bitwise conjunction. -/
def bitAnd (p q : Primitive) : Primitive :=
  int (p.toInt32 &&& q.toInt32)

/-- The bitwise disjunction. -/
def bitOr (p q : Primitive) : Primitive :=
  int (p.toInt32 ||| q.toInt32)

/-- The bitwise difference. -/
def bitXor (p q : Primitive) : Primitive :=
  int (p.toInt32 ^^^ q.toInt32)

/-- The places by which a shift moves: the low five bits of its right operand. -/
def shiftCount (q : Primitive) : UInt32 :=
  q.toUInt32 &&& 31

/-- The shift to the left. -/
def shiftLeft (p q : Primitive) : Primitive :=
  int (p.toInt32 <<< q.shiftCount.toInt32)

/-- The shift to the right that keeps the sign. -/
def shiftRight (p q : Primitive) : Primitive :=
  int (p.toInt32 >>> q.shiftCount.toInt32)

/-- The shift to the right that fills with zeros. -/
def shiftRightUnsigned (p q : Primitive) : Primitive :=
  ofInt (p.toUInt32 >>> q.shiftCount).toNat

/-! ### Order -/

/-- Whether the first operand is less: strings by their code units, all else by value. There is no
answer when a value is NaN. -/
def less? : Primitive → Primitive → Option Bool
  | int a, int b => some (a < b)
  | str a, str b => some (Utf16.compare a b == .lt)
  | p, q =>
    let x := p.toFloat
    let y := q.toFloat
    if x.isNaN || y.isNaN then none else some (x < y)

/-! ### Equality -/

/-- Equality without conversions. NaN equals nothing, and the zeros are equal. -/
def strictEq : Primitive → Primitive → Bool
  | int a, int b => a == b
  | undefined, undefined | null, null => true
  | bool a, bool b => a == b
  | str a, str b => a == b
  | p, q =>
    match p.float?, q.float? with
    | some x, some y => x == y
    | _, _ => false

/-- Whether both are NaN. -/
def bothNaN (p q : Primitive) : Bool :=
  match p.float?, q.float? with
  | some x, some y => x.isNaN && y.isNaN
  | _, _ => false

/-- Equality across types: undefined equals null, and all else is compared by value. -/
def looseEq (p q : Primitive) : Bool :=
  if p.type = q.type then p.strictEq q
  else if p.isNullish || q.isNullish then p.isNullish && q.isNullish
  else p.toFloat == q.toFloat

end ScriptOps.Primitive
