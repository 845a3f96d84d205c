import ScriptOps.Overload.Catalog

/-!
# Resolution of operator methods

A resolver looks methods up in its catalog and remembers each answer, the absence of a method
included, by the operator and the two operand types. Operands without a host object among them are
never looked up.
-/

namespace ScriptOps

/-- What an answer is remembered by. -/
structure OverloadKey where
  /-- The operator. -/
  operator : BinaryOp
  /-- The type of the left operand. -/
  left : OperandType
  /-- The type of the right operand. -/
  right : OperandType
deriving DecidableEq

/-- The key of two operands, if one of them is a host object and both have a type. -/
def OverloadKey.of? (h : Heap) (op : BinaryOp) (l r : Value) : Option OverloadKey := do
  let left ← OperandType.of? h l
  let right ← OperandType.of? h r
  if left.hostType?.isSome || right.hostType?.isSome then some ⟨op, left, right⟩ else none

/-- A catalog with the answers that it has given. -/
structure Resolver where
  /-- The declared methods. -/
  catalog : Catalog
  /-- The remembered answers. -/
  cache : Table OverloadKey (Option OperatorMethod)
  /-- How often the catalog was searched. -/
  resolutions : Nat
  /-- How often a method was called. -/
  dispatches : Nat
deriving Inhabited

namespace Resolver

/-- A resolver that remembers nothing. -/
def ofCatalog (c : Catalog) : Resolver :=
  ⟨c, {}, 0, 0⟩

/-- The method for a key. -/
def resolve (r : Resolver) (key : OverloadKey) : Option OperatorMethod × Resolver :=
  match r.cache.get? key with
  | some answer => (answer, r)
  | none =>
    let answer := r.catalog.bestMatch? key.operator key.left key.right
    (answer, { r with cache := r.cache.insert key answer, resolutions := r.resolutions + 1 })

/-- The method for two operands. -/
def lookup (res : Resolver) (h : Heap) (op : BinaryOp) (l r : Value) :
    Option OperatorMethod × Resolver :=
  match OverloadKey.of? h op l r with
  | some key => res.resolve key
  | none => (none, res)

/-- Counts a call. -/
def countDispatch (r : Resolver) : Resolver :=
  { r with dispatches := r.dispatches + 1 }

end Resolver

end ScriptOps
