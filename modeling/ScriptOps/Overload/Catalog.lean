import ScriptOps.Coercion
import ScriptOps.Operator

/-!
# Operator methods of host types

Host types declare methods for operators, each with the types of its two parameters. Of the methods
that accept two operands the cheapest conversion wins, and among equally cheap ones the first: the
methods of the left operand's type come before those of the right operand's type.
-/

namespace ScriptOps

/-- The type of a parameter. -/
inductive ParamType where
  | host (t : HostTypeId)
  | number | string | boolean
  /-- Takes any operand as it is. -/
  | any
deriving DecidableEq, Inhabited

/-- The type of an operand, as far as methods tell types apart. -/
inductive OperandType where
  | host (t : HostTypeId)
  | number | string | boolean
deriving DecidableEq, Inhabited

namespace OperandType

/-- The type of a value. Undefined, null and the objects of scripts have none. -/
def of? (h : Heap) : Value → Option OperandType
  | .primitive p =>
    match p.type with
    | .number => some .number
    | .string => some .string
    | .boolean => some .boolean
    | .undefined | .null | .object => none
  | .object id => (h.kind id).host?.map fun o => .host o.type.id

/-- The host type of the wrapped operands. -/
def hostType? : OperandType → Option HostTypeId
  | host t => some t
  | _ => none

end OperandType

namespace ParamType

/-- The cost of giving an operand to a parameter, if it fits. -/
def cost? : ParamType → OperandType → Option Nat
  | host p, .host a => if p = a then some 0 else none
  | number, .number | string, .string | boolean, .boolean => some 0
  | number, .boolean => some 1
  | string, .number | string, .boolean => some 2
  | any, _ => some 3
  | _, _ => none

/-- Converts an operand to the type of a parameter. -/
def convert (host : Host) (v : Value) : ParamType → Action Value
  | number => return Primitive.ofFloat (← host.toFloat v)
  | string => return .str (← host.toText v)
  | boolean => return .bool v.toBool
  | .host _ | any => return v

end ParamType

/-- A method that a host type declares for an operator. -/
structure OperatorMethod where
  /-- The operator. -/
  operator : BinaryOp
  /-- The type that declares the method. -/
  declaringType : HostTypeId
  /-- The type of the left parameter. -/
  left : ParamType
  /-- The type of the right parameter. -/
  right : ParamType
  /-- The number by which the host knows the method. -/
  number : Nat
deriving DecidableEq, Inhabited

namespace OperatorMethod

/-- The cost of a call with two operands, if both fit. -/
def cost? (m : OperatorMethod) (left right : OperandType) : Option Nat := do
  return (← m.left.cost? left) + (← m.right.cost? right)

/-- Converts the operands, the left one first, and calls the method. -/
def invoke (m : OperatorMethod) (host : Host) (l r : Value) : Action Value := do
  let l ← m.left.convert host l
  let r ← m.right.convert host r
  host.ask (.operator m.number l r)

end OperatorMethod

/-- The declared methods, in order of declaration. -/
structure Catalog where
  /-- The methods. -/
  methods : List OperatorMethod
deriving Inhabited

namespace Catalog

/-- Whether no method is declared. -/
def isEmpty (c : Catalog) : Bool :=
  c.methods.isEmpty

/-- The methods of a type for an operator. -/
def methodsOn (c : Catalog) (t : HostTypeId) (op : BinaryOp) : List OperatorMethod :=
  c.methods.filter fun m => m.declaringType = t ∧ m.operator = op

/-- The methods that come into question for two operands. A type that both have is counted once. -/
def candidates (c : Catalog) (op : BinaryOp) (left right : OperandType) : List OperatorMethod :=
  let types := left.hostType?.toList ++
    (right.hostType?.filter fun t => left.hostType? ≠ some t).toList
  types.flatMap fun t => c.methodsOn t op

/-- The better of the best method so far and a further one. -/
def better (left right : OperandType) (best? : Option (Nat × OperatorMethod)) (m : OperatorMethod) :
    Option (Nat × OperatorMethod) :=
  match m.cost? left right, best? with
  | none, _ => best?
  | some cost, none => some (cost, m)
  | some cost, some (least, _) => if cost < least then some (cost, m) else best?

/-- The best method for two operands. -/
def bestMatch? (c : Catalog) (op : BinaryOp) (left right : OperandType) : Option OperatorMethod :=
  ((c.candidates op left right).foldl (better left right) none).map (·.2)

end Catalog

end ScriptOps
