/-!
# Index keys

A property key names an index exactly when it is the decimal text of a number: no sign, no leading
zero, nothing else.
-/

namespace ScriptOps

/-- Whether characters are digits only, with no zero before other digits. -/
def isPlainDecimal (text : List Char) : Bool :=
  text.all Char.isDigit && (text.length ≤ 1 || text.head? != some '0')

/-- The number that a key names as an index. What is indexed bounds it. -/
def indexOfKey? (key : String) : Option Nat :=
  key.toNat?.filter fun _ => isPlainDecimal key.toList

/-- The largest index of an array element, `2 ^ 32 - 2`. -/
def maxArrayIndex : Nat := 0xfffffffe

/-- The number that a key names as the index of an array element. -/
def arrayIndexOfKey? (key : String) : Option Nat :=
  (indexOfKey? key).filter (· ≤ maxArrayIndex)

end ScriptOps
