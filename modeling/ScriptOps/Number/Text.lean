import ScriptOps.Number.Decimal

/-!
# The text of a number

A finite number is written with the fewest digits that read back. It is positional when the point
falls at most 21 places after the first digit and at most 6 zeros precede it; any other number has
one digit before the point and a signed exponent.
-/

namespace ScriptOps

/-- The most digits that stand before the point in positional notation. -/
def maxWholeDigits : Int := 21

/-- Numbers below `10 ^ (-leadingPlaces)` are not positional. -/
def leadingPlaces : Int := 6

namespace Decimal

/-- One digit, the rest after a point, and the power of ten of the first digit. -/
def scientificText (digits : List Char) (power : Int) : List Char :=
  let fraction := match digits.drop 1 with
    | [] => []
    | rest => '.' :: rest
  let sign := if power < 0 then '-' else '+'
  digits.take 1 ++ fraction ++ 'e' :: sign :: Nat.toDigits 10 power.natAbs

/-- Lays out digits whose point stands `point` places after the start of the first one. -/
def layout (digits : List Char) (point : Int) : List Char :=
  let count : Int := digits.length
  if count ≤ point ∧ point ≤ maxWholeDigits then
    digits ++ List.replicate (point - count).toNat '0'
  else if 0 < point ∧ point ≤ maxWholeDigits then
    digits.take point.toNat ++ '.' :: digits.drop point.toNat
  else if -leadingPlaces < point ∧ point ≤ 0 then
    '0' :: '.' :: List.replicate (-point).toNat '0' ++ digits
  else scientificText digits (point - 1)

/-- The text of a decimal. -/
def text (d : Decimal) : List Char :=
  let digits := Nat.toDigits 10 d.digits
  layout digits (digits.length + d.exponent)

end Decimal

/-- The text of a number. Zero has no sign. -/
def numberText (x : Float) : String :=
  match Binary.ofFloat? x with
  | some b =>
    let body := b.shortest.text
    String.ofList (if b.negative ∧ b.mantissa ≠ 0 then '-' :: body else body)
  | none => if x.isNaN then "NaN" else if x < 0 then "-Infinity" else "Infinity"

end ScriptOps
