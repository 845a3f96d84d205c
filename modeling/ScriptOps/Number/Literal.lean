import ScriptOps.Number.Decimal
import ScriptOps.Text.Blank

/-!
# Numbers written in strings

A string denotes a number when, without the blanks around it, it is empty, a signed infinity, a
signed decimal, or an unsigned whole number with a radix mark. Anything else is NaN.
-/

namespace ScriptOps.NumberLiteral

/-! ### Decimals -/

/-- Splits off an optional sign; `true` stands for minus. -/
def readSign : List Char → Bool × List Char
  | '-' :: rest => (true, rest)
  | '+' :: rest => (false, rest)
  | text => (false, text)

/-- Splits off digits with an optional point among or around them. At least one digit is needed. -/
def readMantissa? (text : List Char) : Option (Decimal × List Char) :=
  let (whole, rest) := text.span Char.isDigit
  let (fraction, rest) := match rest with
    | '.' :: afterPoint => afterPoint.span Char.isDigit
    | rest => ([], rest)
  if whole.isEmpty && fraction.isEmpty then none
  else some (⟨Nat.ofDigitChars 10 (whole ++ fraction) 0, -fraction.length⟩, rest)

/-- Reads a signed run of digits that is the whole text. -/
def readInteger? (text : List Char) : Option Int :=
  let (negative, digits) := readSign text
  if digits.isEmpty || !digits.all Char.isDigit then none
  else
    let n : Int := Nat.ofDigitChars 10 digits 0
    some (if negative then -n else n)

/-- Reads an exponent mark and its integer, or the end of the text. -/
def readExponent? : List Char → Option Int
  | [] => some 0
  | mark :: rest => if mark = 'e' ∨ mark = 'E' then readInteger? rest else none

/-- Reads an unsigned decimal that is the whole text. -/
def readDecimal? (text : List Char) : Option Decimal := do
  let (mantissa, rest) ← readMantissa? text
  let exponent ← readExponent? rest
  return ⟨mantissa.digits, mantissa.exponent + exponent⟩

/-- Reads a signed decimal or a signed infinity. -/
def readSigned? (text : List Char) : Option Float :=
  let (negative, body) := readSign text
  let magnitude :=
    if body = "Infinity".toList then some infinity else (readDecimal? body).map Decimal.toFloat
  magnitude.map fun x => if negative then -x else x

/-! ### Radix marks -/

/-- The radix that a mark after a leading zero announces. -/
def radixOf? (mark : Char) : Option Nat :=
  if mark = 'x' ∨ mark = 'X' then some 16
  else if mark = 'o' ∨ mark = 'O' then some 8
  else if mark = 'b' ∨ mark = 'B' then some 2
  else none

/-- The value of a character as a digit. -/
def digitValue? (radix : Nat) (c : Char) : Option Nat :=
  let value :=
    if c.isDigit then some (c.toNat - '0'.toNat)
    else if 'a' ≤ c ∧ c ≤ 'f' then some (c.toNat - 'a'.toNat + 10)
    else if 'A' ≤ c ∧ c ≤ 'F' then some (c.toNat - 'A'.toNat + 10)
    else none
  value.filter (· < radix)

/-- Reads a nonempty run of digits of a radix, with a double as the running value: each step rounds
once for the product and once for the sum. -/
def readRadix? (radix : Nat) (digits : List Char) : Option Float := do
  let values ← digits.mapM (digitValue? radix)
  if values.isEmpty then none
  else return values.foldl (fun (sum : Float) (d : Nat) => sum * floatOfInt radix + floatOfInt d) 0

/-! ### The whole grammar -/

/-- Reads a text without blanks around it. -/
def read? : List Char → Option Float
  | [] => some 0
  | '0' :: mark :: rest =>
    match radixOf? mark with
    | some radix => readRadix? radix rest
    | none => readSigned? ('0' :: mark :: rest)
  | text => readSigned? text

end ScriptOps.NumberLiteral

namespace ScriptOps

/-- The number a string denotes. -/
def numberOfText (s : String) : Float :=
  (NumberLiteral.read? (trimBlanks s.toList)).getD nan

end ScriptOps
