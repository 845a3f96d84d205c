import ScriptOps.Number.Binary

/-!
# Residues of numbers modulo `2 ^ 32`

Bitwise operators see a number through its whole part modulo `2 ^ 32`. The residue is computed in
the arithmetic of doubles: the fraction is dropped, the remainder of a division by `2 ^ 32` taken,
and moved up by `2 ^ 32` if it is negative. None of these steps rounds, so no magnitude is too
large; a NaN or an infinity counts as zero.
-/

namespace ScriptOps

/-- The whole part of a number, with zero for a NaN or an infinity. -/
def wholePart (x : Float) : Int :=
  match Binary.ofFloat? x with
  | some b => b.truncate
  | none => 0

/-! ### Steps in doubles -/

/-- A number without its fraction, as a double. A zero keeps the sign of the number. -/
def dropFraction (x : Float) : Float :=
  match Binary.ofFloat? x with
  | some b => if b.IsWhole then x else Binary.toFloat ⟨b.negative, b.wholeMagnitude, 0⟩
  | none => x

/-- The double `2 ^ 32`. -/
def residueModulus : Float := floatOfInt 0x100000000

/-- The residue of the whole part in `0 .. 2 ^ 32 - 1`, as a double. -/
def floatResidue (x : Float) : Float :=
  let r := floatRemainder (dropFraction x) residueModulus
  if r < 0 then r + residueModulus else r

/-- The integer of 32 bits without a sign that is nearest to the whole part of a finite number. -/
def saturateUInt32 (x : Float) : UInt32 :=
  .ofNat (min (wholePart x).toNat 0xffffffff)

/-- The integer of 32 bits with a sign that is nearest to the whole part of a finite number. -/
def saturateInt32 (x : Float) : Int32 :=
  .ofInt (max (-0x80000000) (min (wholePart x) 0x7fffffff))

/-! ### Residues of 32 bits -/

/-- The residue of the whole part in `-2 ^ 31 .. 2 ^ 31 - 1`. -/
def residueInt32 (x : Float) : Int32 :=
  if x.isFinite then
    let r := floatResidue x
    if floatOfInt 0x80000000 ≤ r then saturateInt32 (r - residueModulus) else saturateInt32 r
  else 0

/-- The residue of the whole part in `0 .. 2 ^ 32 - 1`. -/
def residueUInt32 (x : Float) : UInt32 :=
  if x.isFinite then saturateUInt32 (floatResidue x) else 0

end ScriptOps
