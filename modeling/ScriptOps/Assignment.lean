import ScriptOps.Machine

/-!
# Assignments

What an assignment does once its target is resolved. The right-hand side is a parameter: it is
evaluated after the target was resolved and before the target is written.
-/

namespace ScriptOps.Eval

/-! ### Through a reference -/

/-- Whether a logical assignment keeps the value that its target has. -/
def keeps (op : AssignOp) (current : Value) : Bool :=
  match op with
  | .and => !current.toBool
  | .or => current.toBool
  | .nullish => !current.isNullish
  | _ => false

/-- Evaluates the right-hand side and writes it. -/
def writeThrough (s : Settings) (value : Eval Value) (id : RefId) : Eval Value := do
  let v ← value
  putValue s id v
  return v

/-- Applies an operator to the value that the target has and to the right-hand side, and writes the
result. -/
def compoundThrough (s : Settings) (op : BinaryOp) (value : Eval Value) (id : RefId) :
    Eval Value := do
  let current ← getValue id
  let v ← value
  count fun stats => { stats with compoundAssignments := stats.compoundAssignments + 1 }
  let result ← operate s op current v
  putValue s id result
  return result

/-- Keeps the value that the target has, or writes the right-hand side, which is evaluated only
then. -/
def logicalThrough (s : Settings) (op : AssignOp) (value : Eval Value) (id : RefId) :
    Eval Value := do
  let current ← getValue id
  if keeps op current then return current else writeThrough s value id

/-- Carries out an assignment to the reference in a slot. -/
def assignThrough (s : Settings) (op : AssignOp) (value : Eval Value) (id : RefId) : Eval Value :=
  match op.binaryOp? with
  | some binary => compoundThrough s binary value id
  | none => if op = .assign then writeThrough s value id else logicalThrough s op value id

/-! ### To names -/

/-- Carries out a plain assignment to a name, without a slot in the pool. A function literal without
a name takes that of its target. -/
def assignName (s : Settings) (name : String) (isAnonymousFunction : Bool) (value : Eval Value) :
    Eval Value := do
  checkReserved s name
  let scope? := (← get).env.resolve? name
  let v ← value
  if isAnonymousFunction then lift (Action.nameFunction v name)
  writeName s scope? name v
  return v

/-- Carries out any other assignment to a name. Strict code is told of reserved names before the
assignment has a place. -/
def assignNameThrough (s : Settings) (op : AssignOp) (name : String) (value : Eval Value)
    (span : Span) : Eval Value := do
  checkReserved s name
  let r ← nameReference name
  locate span (withReference r (assignThrough s op value))

/-- Writes a value to a name that is an element of a pattern. -/
def assignElement (s : Settings) (name : String) (v : Value) : Eval Unit := do
  checkReserved s name
  let r ← nameReference name
  withReference r fun id => putValue s id v

end ScriptOps.Eval
