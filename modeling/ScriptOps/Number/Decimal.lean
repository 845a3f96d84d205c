import ScriptOps.Number.Binary

/-!
# Decimals

A decimal is a natural number of units of a power of ten. `Decimal.toFloat` reads one as the nearest
double. `shortest` goes the other way: it looks for the fewest digits that read back to the double
it was given. It tries one digit, two digits, and so on; at each length only the two neighbours of
the exact value on the grid of that length can be the closest ones that read back.
-/

namespace ScriptOps

attribute [local instance] corePow

/-- The number `digits * 10 ^ exponent`. -/
structure Decimal where
  /-- The digits, read as a natural number. -/
  digits : Nat
  /-- The power of ten. -/
  exponent : Int
deriving DecidableEq

namespace Decimal

/-- Drops the trailing zeros of the digits, at most `fuel` of them, and raises the exponent. -/
def stripZeros : Nat → Decimal → Decimal
  | 0, d => d
  | fuel + 1, d =>
    if d.digits % 10 = 0 then stripZeros fuel ⟨d.digits / 10, d.exponent + 1⟩ else d

/-- The same number with no trailing zero among its digits. Zero becomes `0 * 10 ^ 0`. -/
def canonical (d : Decimal) : Decimal :=
  if d.digits = 0 then ⟨0, 0⟩ else d.stripZeros d.digits.log2

/-- The double nearest to the decimal, ties to even. -/
def toFloat (d : Decimal) : Float :=
  .ofModel (.ofScientific d.canonical.digits d.canonical.exponent)

end Decimal

/-! ### The decimal grid around a binary number -/

namespace Binary

/-- The magnitude as a quotient of two naturals, the denominator positive. -/
def quotient (b : Binary) : Nat × Nat :=
  if 0 ≤ b.exponent then (b.mantissa * 2 ^ b.exponent.toNat, 1)
  else (b.mantissa, 2 ^ (-b.exponent).toNat)

/-- The magnitude written out in full. Every binary number is a finite decimal. -/
def expansion (b : Binary) : Decimal :=
  if 0 ≤ b.exponent then ⟨b.mantissa * 2 ^ b.exponent.toNat, 0⟩
  else ⟨b.mantissa * 5 ^ (-b.exponent).toNat, b.exponent⟩

/-- Lies below the least exponent of ten that a double reaches. -/
def scaleFloor : Nat := 330

/-- The least `k` with the magnitude below `10 ^ k`, for magnitudes above `10 ^ (-scaleFloor)`. -/
def scale (b : Binary) : Int :=
  let (num, den) := b.quotient
  ((Nat.toDigits 10 (num * 10 ^ scaleFloor / den)).length : Int) - scaleFloor

/-- The neighbours of the magnitude among the multiples of `10 ^ unit`, the nearer one first. Of two
equally near neighbours the upper one comes first. -/
def neighbours (b : Binary) (unit : Int) : List Decimal :=
  let (num, den) := b.quotient
  let num := num * 10 ^ (-unit).toNat
  let den := den * 10 ^ unit.toNat
  let lower := num / den
  if 2 * (num % den) < den then [⟨lower, unit⟩, ⟨lower + 1, unit⟩]
  else [⟨lower + 1, unit⟩, ⟨lower, unit⟩]

/-- Whether a decimal reads back to the magnitude. -/
def readsBack (b : Binary) (d : Decimal) : Bool :=
  d.toFloat == { b with negative := false }.toFloat

/-- The nearest decimal of the given number of digits that reads back to the magnitude. -/
def nearestOfLength? (b : Binary) (length : Nat) : Option Decimal :=
  (b.neighbours (b.scale - length)).find? b.readsBack

/-- Seventeen digits identify a double. -/
def maxDigits : Nat := 17

/-- The shortest decimal that reads back to the magnitude, and of those the nearest. -/
def shortest (b : Binary) : Decimal :=
  let found := (List.range maxDigits).findSome? fun n => b.nearestOfLength? (n + 1)
  (found.getD b.expansion).canonical

end Binary

end ScriptOps
