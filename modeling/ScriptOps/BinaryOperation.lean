import ScriptOps.Comparison

/-!
# Binary operations

What the operators do without overloads. Most convert both operands, the left one first, and compute
on the primitives. Multiplication and remainder of undefined are undefined, before any conversion.
-/

namespace ScriptOps

/-! ### Prototype chains and properties -/

/-- Whether an object was made by a function: whether the prototype object of the function lies
above it. Of a host type, whether the object behind a wrapper has it. -/
def isInstanceOf (left right : Value) : Action Bool := do
  let h ← Action.heap
  match right with
  | .primitive p => Action.fail (.instanceOfNonObject p.display)
  | .object target =>
    match h.kind target with
    | .hostType t => return (h.hostObject? left).any (·.type.id = t.id)
    | .function _ =>
      match left with
      | .primitive _ => return false
      | .object id =>
        match h.get target "prototype" with
        | .object prototype => return decide (prototype ∈ (h.chain id).tail)
        | .primitive p => Action.fail (.instanceOfPrototype p.display)
    | _ => Action.fail (.instanceOfNonCallable (h.displayObject target))

/-- Whether an object has a property. -/
def isMember (host : Host) (left right : Value) : Action Bool := do
  match right with
  | .primitive p => Action.fail (.membershipInNonObject ((← Action.heap).display left) p.display)
  | .object id =>
    let key ← host.toPropertyKey left
    return (← Action.heap).has id key

namespace BinaryOp

/-- What the relational operators make of an answer on the order. -/
def holds (answer : Option Bool) (wanted : Bool) : Primitive :=
  .bool (answer == some wanted)

/-- Whether undefined is the result because an operand is. -/
def isAbsorbed (op : BinaryOp) (l r : Value) : Bool :=
  match op, l, r with
  | mul, .undefined, _ | mul, _, .undefined | rem, .undefined, _ | rem, _, .undefined => true
  | _, _, _ => false

/-- The hint for operands that are converted both. -/
def hint : BinaryOp → Hint
  | add => .default
  | _ => .number

/-- The result on two primitives. The last two operators need an object on the right, so they have
none. -/
def compute? (op : BinaryOp) (p q : Primitive) : Option Primitive :=
  match op with
  | strictEq => some (.bool (p.strictEq q))
  | strictNotEq => some (.bool (!p.strictEq q))
  | looseEq => some (.bool (p.looseEq q))
  | looseNotEq => some (.bool (!p.looseEq q))
  | less => some (holds (p.less? q) true)
  | greater => some (holds (q.less? p) true)
  | lessEq => some (holds (q.less? p) false)
  | greaterEq => some (holds (p.less? q) false)
  | add => some (p.add q)
  | sub => some (p.sub q)
  | mul => some (p.mul q)
  | div => some (p.div q)
  | rem => some (p.rem q)
  | exp => some (p.exp q)
  | bitAnd => some (p.bitAnd q)
  | bitOr => some (p.bitOr q)
  | bitXor => some (p.bitXor q)
  | shiftLeft => some (p.shiftLeft q)
  | shiftRight => some (p.shiftRight q)
  | shiftRightUnsigned => some (p.shiftRightUnsigned q)
  | instanceOf | membership => none

/-- Converts both operands and computes. -/
def convertAndCompute (op : BinaryOp) (host : Host) (l r : Value) : Action Value := do
  if op.isAbsorbed l r then return .undefined
  else
    let (p, q) ← host.toPrimitives op.hint l r
    return (op.compute? p q).getD .undefined

/-- The result of an operator on two values, without overloads. -/
def evaluate (op : BinaryOp) (host : Host) (l r : Value) : Action Value :=
  match op with
  | strictEq => return .bool (← host.strictEquals l r)
  | strictNotEq => return .bool (!(← host.strictEquals l r))
  | looseEq => return .bool (← host.looseEquals l r)
  | looseNotEq => return .bool (!(← host.looseEquals l r))
  | instanceOf => return .bool (← isInstanceOf l r)
  | membership => return .bool (← isMember host l r)
  | op => op.convertAndCompute host l r

/-- The result of an operator on two primitives, if it depends on nothing else. -/
def fold? (op : BinaryOp) (p q : Primitive) : Option Primitive :=
  if op.isAbsorbed p q then some .undefined else op.compute? p q

end BinaryOp

end ScriptOps
