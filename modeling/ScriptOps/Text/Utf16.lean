/-!
# UTF-16 code units

Strings hold whole characters, but scripts measure, index and compare them by UTF-16 code units. A
character below `2 ^ 16` is one unit; any other is a pair of surrogates. Half of a pair is not a
character, so reading one gives the replacement character.
-/

namespace ScriptOps.Utf16

/-- The code units of a character. -/
def ofChar (c : Char) : List Nat :=
  let n := c.toNat
  if n < 0x10000 then [n]
  else [0xD800 + (n - 0x10000) / 0x400, 0xDC00 + (n - 0x10000) % 0x400]

/-- The code units of a string. -/
def encode (s : String) : List Nat :=
  s.toList.flatMap ofChar

/-- The length of a string in code units. -/
def length (s : String) : Nat :=
  (encode s).length

/-- What a single code unit reads as. -/
def toChar (unit : Nat) : Char :=
  if unit.isValidChar then Char.ofNat unit else '\uFFFD'

/-- The code unit at an index, as a string. -/
def unitAt? (s : String) (index : Nat) : Option String :=
  (encode s)[index]?.map fun unit => (toChar unit).toString

/-- The lexicographic order of the code units. -/
def compare (a b : String) : Ordering :=
  Ord.compare (encode a) (encode b)

end ScriptOps.Utf16
