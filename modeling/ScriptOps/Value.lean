import ScriptOps.Number.Literal
import ScriptOps.Number.Residue
import ScriptOps.Number.Text
import ScriptOps.Text.Escape

/-!
# Values

A value is a primitive or a reference to an object of the heap. Numbers have two representations:
`Primitive.int` holds the exact integers of 32 bits, and `Primitive.number` any double. The one that
operators produce is canonical, `Primitive.ofFloat`, but both are values of the same language type.
-/

namespace ScriptOps

attribute [local instance] corePow

/-- The identity of an object: its place in the heap. -/
structure ObjectId where
  /-- The place, in order of creation. -/
  index : Nat
deriving DecidableEq, Inhabited

/-- A value that is not an object. -/
inductive Primitive where
  | undefined
  | null
  | bool (b : Bool)
  /-- A number held as an integer. -/
  | int (i : Int32)
  /-- A number held as a double. -/
  | number (x : Float)
  | str (s : String)
deriving Inhabited

/-- A value. -/
inductive Value where
  | primitive (p : Primitive)
  | object (id : ObjectId)
deriving Inhabited

instance : Coe Primitive Value := ⟨.primitive⟩

/-- The language types. Both representations of numbers have one type. -/
inductive ValueType where
  | undefined | null | boolean | number | string | object
deriving DecidableEq, Inhabited

/-- What a conversion to a primitive is asked for. -/
inductive Hint where
  | default | number | string
deriving DecidableEq, Inhabited

/-! ### Numbers as primitives -/

/-- The integer of 32 bits that a double equals. Negative zero equals none. -/
def exactInt32? (x : Float) : Option Int32 :=
  match Binary.ofFloat? x with
  | some b =>
    let i := b.truncate
    let isNegativeZero := b.negative ∧ b.mantissa = 0
    if b.IsWhole ∧ -2 ^ (31 : Nat) ≤ i ∧ i < 2 ^ (31 : Nat) ∧ ¬isNegativeZero then
      some (.ofInt i)
    else none
  | none => none

namespace Primitive

/-- The canonical representation of a double. -/
def ofFloat (x : Float) : Primitive :=
  match exactInt32? x with
  | some i => .int i
  | none => .number x

/-- The canonical representation of an integer, rounded to a double if it has more than 32 bits. -/
def ofInt (i : Int) : Primitive :=
  if -2 ^ (31 : Nat) ≤ i ∧ i < 2 ^ (31 : Nat) then .int (.ofInt i) else .number (floatOfInt i)

/-- The language type. -/
def type : Primitive → ValueType
  | undefined => .undefined
  | null => .null
  | bool _ => .boolean
  | int _ | number _ => .number
  | str _ => .string

/-- Whether the value is undefined or null. -/
def isNullish : Primitive → Bool
  | undefined | null => true
  | _ => false

/-- The double behind a number of either representation. -/
def float? : Primitive → Option Float
  | int i => some (floatOfInt i.toInt)
  | number x => some x
  | _ => none

/-! ### Conversions of primitives -/

/-- The truth value. -/
def toBool : Primitive → Bool
  | undefined | null => false
  | bool b => b
  | int i => i != 0
  | number x => !(x == 0 || x.isNaN)
  | str s => !s.isEmpty

/-- The numeric value. -/
def toFloat : Primitive → Float
  | undefined => nan
  | null => 0
  | bool b => if b then 1 else 0
  | int i => floatOfInt i.toInt
  | number x => x
  | str s => numberOfText s

/-- The string value. -/
def toText : Primitive → String
  | undefined => "undefined"
  | null => "null"
  | bool b => if b then "true" else "false"
  | int i => toString i.toInt
  | number x => numberText x
  | str s => s

/-- The numeric value modulo `2 ^ 32`, with a sign. -/
def toInt32 : Primitive → Int32
  | int i => i
  | p => residueInt32 p.toFloat

/-- The numeric value modulo `2 ^ 32`, without a sign. -/
def toUInt32 : Primitive → UInt32
  | int i => i.toUInt32
  | p => residueUInt32 p.toFloat

/-! ### Texts for diagnostics -/

/-- The text in messages: strings stand between single quotes. -/
def display : Primitive → String
  | str s => "'" ++ s ++ "'"
  | p => p.toText

/-- The text that also tells the representation. -/
def debugText : Primitive → String
  | undefined => "Undefined"
  | null => "Null"
  | bool b => "Bool(" ++ (if b then "true" else "false") ++ ")"
  | int i => "Int(" ++ toString i.toInt ++ ")"
  | number x => "Number(" ++ numberText x ++ ")"
  | str s => "Str(" ++ quoted s ++ ")"

/-! ### Sameness -/

/-- Whether two primitives are the same to the host: numbers by value, with NaN the same as NaN. -/
def same : Primitive → Primitive → Bool
  | undefined, undefined | null, null => true
  | bool a, bool b => a == b
  | str a, str b => a == b
  | a, b =>
    match a.float?, b.float? with
    | some x, some y => x == y || (x.isNaN && y.isNaN)
    | _, _ => false

end Primitive

namespace Value

/-- The undefined value. -/
@[match_pattern] abbrev undefined : Value := .primitive .undefined

/-- The null value. -/
@[match_pattern] abbrev null : Value := .primitive .null

/-- A boolean value. -/
@[match_pattern] abbrev bool (b : Bool) : Value := .primitive (.bool b)

/-- A string value. -/
@[match_pattern] abbrev str (s : String) : Value := .primitive (.str s)

/-- The language type. -/
def type : Value → ValueType
  | .primitive p => p.type
  | .object _ => .object

/-- Whether the value is undefined or null. -/
def isNullish : Value → Bool
  | .primitive p => p.isNullish
  | .object _ => false

/-- The double behind a number. -/
def float? : Value → Option Float
  | .primitive p => p.float?
  | .object _ => none

/-- The truth value. Every object is true. -/
def toBool : Value → Bool
  | .primitive p => p.toBool
  | .object _ => true

/-- Whether two values are the same to the host: objects by identity. -/
def same : Value → Value → Bool
  | .primitive p, .primitive q => p.same q
  | .object a, .object b => a == b
  | _, _ => false

end Value

end ScriptOps
