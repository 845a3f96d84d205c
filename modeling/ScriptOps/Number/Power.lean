import ScriptOps.Number.Binary

/-!
# Exponentiation

The library's power function knows two conventions that scripts do not share: a base of one hides a
NaN exponent, and a base of magnitude one has a defined power at infinity. Both are NaN here.
-/

namespace ScriptOps

/-- `base` raised to `exponent`. -/
def power (base exponent : Float) : Float :=
  if exponent.isNaN then nan
  else if exponent == 0 then 1
  else if base.abs == 1 && exponent.isInf then nan
  else base.pow exponent

end ScriptOps
