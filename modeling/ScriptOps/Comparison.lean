import ScriptOps.Arithmetic
import ScriptOps.Coercion

/-!
# Comparison of values

Equality and order of values. Objects are equal by identity, or because the host says so of the
objects behind two wrappers. Loose equality converts at most one operand: an object that meets a
primitive.
-/

namespace ScriptOps

/-- The host objects behind two distinct wrappers. -/
def Heap.hostPair? (h : Heap) : Value → Value → Option (HostObject × HostObject)
  | .object a, .object b =>
    if a = b then none
    else match (h.kind a).host?, (h.kind b).host? with
      | some x, some y => some (x, y)
      | _, _ => none
  | _, _ => none

namespace Host

/-! ### Equality -/

/-- Whether two objects of the host are equal to it. -/
def equates (host : Host) (x y : HostObject) : Bool :=
  match host.equality? x with
  | some equal => equal y
  | none => false

/-- Strict equality in a heap. -/
def strictEq (host : Host) (h : Heap) : Value → Value → Bool
  | .primitive p, .primitive q => p.strictEq q
  | .object a, .object b =>
    a == b || match h.hostPair? (.object a) (.object b) with
      | some (x, y) => host.equates x y
      | none => false
  | _, _ => false

/-- Observes that the host compares the objects behind two values, if it does. -/
def observeComparison (host : Host) (l r : Value) : Action Unit := do
  match (← Action.heap).hostPair? l r with
  | some (x, y) => if (host.equality? x).isSome then Action.observe (.compared x y)
  | none => return ()

/-- Strict equality. -/
def strictEquals (host : Host) (l r : Value) : Action Bool := do
  host.observeComparison l r
  return host.strictEq (← Action.heap) l r

/-- Strict equality, except that NaN equals itself. -/
def sameValueZero (host : Host) (l r : Value) : Action Bool :=
  match l, r with
  | .primitive p, .primitive q => return p.bothNaN q || p.strictEq q
  | l, r => host.strictEquals l r

/-- Loose equality. -/
def looseEquals (host : Host) : Value → Value → Action Bool
  | .primitive p, .primitive q => return p.looseEq q
  | .primitive p, .object id => do
    if p.isNullish then return false
    else return p.looseEq (← host.toPrimitive .default (.object id))
  | .object id, .primitive q => do
    if q.isNullish then return false
    else return (← host.toPrimitive .default (.object id)).looseEq q
  | .object a, .object b => host.strictEquals (.object a) (.object b)

/-! ### Order -/

/-- Converts two operands, the left one first. -/
def toPrimitives (host : Host) (hint : Hint) (l r : Value) : Action (Primitive × Primitive) := do
  let p ← host.toPrimitive hint l
  let q ← host.toPrimitive hint r
  return (p, q)

/-- Whether `x` is less than `y`. When they stand in the source in the other order, `y` is converted
first. -/
def less? (host : Host) (x y : Value) (inOrder : Bool) : Action (Option Bool) := do
  if inOrder then
    let (p, q) ← host.toPrimitives .number x y
    return p.less? q
  else
    let (q, p) ← host.toPrimitives .number y x
    return p.less? q

end Host

end ScriptOps
