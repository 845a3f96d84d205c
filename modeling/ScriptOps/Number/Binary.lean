/-!
# Finite binary numbers

A finite double is a sign, a natural mantissa and a power of two. `Binary` is that exact view: the
whole part, the floor and the remainder are computed on it in integer arithmetic, where nothing is
rounded, and `Binary.toFloat` rounds once on the way back.
-/

namespace ScriptOps

/-- The power of the core library. A definition that takes it as its instance is the same wherever
another one is in scope too. -/
@[reducible]
def corePow {α : Type} [NatPow α] : Pow α Nat := instPowNat

attribute [local instance] corePow

/-- The number `± mantissa * 2 ^ exponent`. A zero keeps its sign. -/
structure Binary where
  /-- The sign bit. -/
  negative : Bool
  /-- The magnitude, in units of `2 ^ exponent`. -/
  mantissa : Nat
  /-- The power of two. -/
  exponent : Int

namespace Binary

/-! ### Doubles and their exact values -/

/-- The exact value of a finite double, and `none` for a NaN or an infinity. -/
def ofFloat? (x : Float) : Option Binary :=
  match x.toModel.unpack with
  | .finite s m e _ => some ⟨s == .negative, m, e⟩
  | .zero s => some ⟨s == .negative, 0, 0⟩
  | .infinity _ => none
  | .notANumber => none

/-- The sign of the double that a `Binary` rounds to. -/
def sign (b : Binary) : Float.Model.UnpackedFloat.Sign :=
  if b.negative then .negative else .positive

/-- The double nearest to the value, ties to even. -/
def toFloat (b : Binary) : Float :=
  .ofModel (.pack (if b.mantissa = 0 then .zero b.sign
    else .round .binary64 b.sign b.mantissa b.exponent))

/-! ### Integer parts -/

/-- The whole part of the magnitude. -/
def wholeMagnitude (b : Binary) : Nat :=
  if 0 ≤ b.exponent then b.mantissa * 2 ^ b.exponent.toNat else b.mantissa / 2 ^ (-b.exponent).toNat

/-- The value without its fraction: rounding goes toward zero. -/
def truncate (b : Binary) : Int :=
  if b.negative then -(b.wholeMagnitude : Int) else b.wholeMagnitude

/-- Whether the value is an integer. -/
def IsWhole (b : Binary) : Prop :=
  0 ≤ b.exponent ∨ b.mantissa % 2 ^ (-b.exponent).toNat = 0

instance (b : Binary) : Decidable b.IsWhole :=
  inferInstanceAs (Decidable (_ ∨ _))

/-- The greatest integer that is at most the value. -/
def floor (b : Binary) : Int :=
  if b.negative && !decide b.IsWhole then b.truncate - 1 else b.truncate

/-! ### Remainders -/

/-- The remainder of the magnitudes, with the sign of the dividend. A zero divisor returns the
dividend. -/
def remainder (a b : Binary) : Binary :=
  let e := min a.exponent b.exponent
  let m := a.mantissa * 2 ^ (a.exponent - e).toNat
  let n := b.mantissa * 2 ^ (b.exponent - e).toNat
  ⟨a.negative, m % n, e⟩

end Binary

/-- The double for an integer, rounded to nearest with ties to even. -/
def floatOfInt (i : Int) : Float :=
  .ofModel (.ofInt i)

/-- The value that is not a number. -/
def nan : Float :=
  .ofModel (.pack .notANumber)

/-- Positive infinity. -/
def infinity : Float :=
  .ofModel (.pack (.infinity .positive))

/-- Negative zero. -/
def negativeZero : Float :=
  .ofModel (.pack (.zero .negative))

/-- The remainder of a division that is rounded toward zero. It takes the sign of the dividend, and
there is none when the dividend is infinite or the divisor is zero. -/
def floatRemainder (x y : Float) : Float :=
  match Binary.ofFloat? x, Binary.ofFloat? y with
  | some a, some b => if b.mantissa = 0 then nan else (a.remainder b).toFloat
  | some _, none => if y.isNaN then nan else x
  | none, _ => nan

end ScriptOps
