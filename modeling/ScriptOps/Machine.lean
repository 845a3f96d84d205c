import ScriptOps.BinaryOperation
import ScriptOps.Overload.Resolver
import ScriptOps.PropertyAccess
import ScriptOps.Reference

/-!
# The machine

The state of an interpreter: the world, the operator methods that were resolved, the bindings, the
references in progress and the counters. Evaluations are effects on it.
-/

namespace ScriptOps

/-- A place of a pattern. -/
inductive PatternPlace where
  /-- A place in an array pattern, by its index. -/
  | position (index : Nat)
  /-- A place in an object pattern, by its key. -/
  | key (name : String)
deriving DecidableEq, Inhabited

/-- How a collaborator shares a value out: what it gives to a place of a pattern, in the heap as it
is when the turn of the place comes. A place that is given nothing is passed over. -/
abbrev Share := Heap → Value → PatternPlace → Option Value

/-- What takes values apart for patterns. A collaborator may share a value out in any way, but it is
assumed to take the targets in order, each once at most, to do nothing else, and not to fail. -/
inductive Destructuring where
  /-- Assigns each element to its target. -/
  | elementwise
  /-- Hands the pattern over to a collaborator, and assigns to each target what it is given. -/
  | shared (share : Share)
deriving Inhabited

/-- How a machine evaluates. -/
structure Settings where
  /-- The host. -/
  host : Host
  /-- Whether the code is strict. -/
  strict : Bool
  /-- What takes values apart. -/
  destructuring : Destructuring

/-- The counters of a machine. -/
structure Stats where
  /-- The binary operators that were evaluated. -/
  binaryEvaluations : Nat
  /-- The compound assignments that applied their operator. -/
  compoundAssignments : Nat
  /-- The references that were put into the pool. -/
  referencesAcquired : Nat
deriving DecidableEq, Inhabited

/-- The state of an interpreter. -/
structure Machine where
  /-- The heap and the trace. -/
  world : World
  /-- The operator methods of host types, if they take part. -/
  resolver? : Option Resolver
  /-- The bindings. -/
  env : Environment
  /-- The references in progress. -/
  references : ReferencePool
  /-- The counters. -/
  stats : Stats
deriving Inhabited

namespace Machine

/-- The machine for a world and its bindings. The name `undefined` is bound, read-only, unless the
global scope declares it already. -/
def start (world : World) (catalog? : Option Catalog) (env : Environment) : Machine :=
  let declared := (env.store.scope Environment.global).declares "undefined"
  { world
    resolver? := catalog?.map Resolver.ofCatalog
    env := if declared then env else env.defineGlobal "undefined" .undefined .readOnly
    references := .empty
    stats := ⟨0, 0, 0⟩ }

/-- Puts a reference into the pool, and counts it. -/
def acquire (m : Machine) (r : Reference) : RefId × Machine :=
  let (id, references) := m.references.acquire r
  let stats := { m.stats with referencesAcquired := m.stats.referencesAcquired + 1 }
  (id, { m with references, stats })

/-- Gives a slot of the pool back. -/
def release (m : Machine) (id : RefId) : Machine :=
  { m with references := (m.references.release id).2 }

end Machine

/-- An effect on the machine that may fail. A failure keeps what was done before it. -/
abbrev Eval := EStateM Error Machine

namespace Eval

/-- Carries out an effect on the world. -/
def lift {α : Type} (x : Action α) : Eval α := fun m =>
  match x m.world with
  | .ok a world => .ok a { m with world }
  | .error e world => .error e { m with world }

/-- Fails for a cause. -/
def fail {α : Type} (c : Cause) : Eval α :=
  throw (.ofCause c)

/-- Gives the errors of an evaluation a place. -/
def locate {α : Type} (span : Span) (x : Eval α) : Eval α := fun m =>
  match x m with
  | .ok a m => .ok a m
  | .error e m => .error (e.locate span) m

/-- Changes the counters. -/
def count (f : Stats → Stats) : Eval Unit :=
  modify fun m => { m with stats := f m.stats }

/-! ### Bindings -/

/-- Takes over the bindings after a write. Only strict code is told of a read-only binding. -/
def commit (s : Settings) (name : String) : Except BindingError Environment → Eval Unit
  | .ok env => modify fun m => { m with env }
  | .error .immutable => fail (.constantBinding name)
  | .error .readOnly => if s.strict then fail (.readOnlyBinding name) else return ()
  | .error .undeclared => fail (.undeclared name)

/-- Writes a name in the scope that was found for it. Without one, sloppy code declares a global. -/
def writeName (s : Settings) (scope? : Option ScopeId) (name : String) (v : Value) : Eval Unit := do
  let env := (← get).env
  match scope? with
  | some id => commit s name (env.setOwn id name v)
  | none =>
    if s.strict then fail (.undeclared name) else commit s name (env.defineOrAssign name v)

/-- Refuses the names that strict code must not assign to. -/
def checkReserved (s : Settings) (name : String) : Eval Unit :=
  if s.strict && (name == "eval" || name == "arguments") then fail (.reservedName name)
  else return ()

/-! ### References -/

/-- The reference of a name. -/
def nameReference (name : String) : Eval Reference := do
  match (← get).env.resolve? name with
  | some scope => return .binding name scope
  | none => return .unresolvable name

/-- The reference of a name is looked up without an effect. -/
theorem nameReference_eq (name : String) (m : Machine) :
    nameReference name m = .ok (match m.env.resolve? name with
      | some scope => .binding name scope
      | none => .unresolvable name) m := by
  change (match m.env.resolve? name with
    | some scope => return .binding name scope
    | none => return .unresolvable name : Eval Reference) m = _
  cases m.env.resolve? name <;> rfl

/-- Puts a reference into the pool. -/
def acquire (r : Reference) : Eval RefId := fun m =>
  let (id, m) := m.acquire r
  .ok id m

/-- Gives a slot of the pool back. -/
def release (id : RefId) : Eval Unit :=
  modify fun m => m.release id

/-- Evaluates with a reference in the pool, and gives its slot back, also after an error. -/
def withReference {α : Type} (r : Reference) (body : RefId → Eval α) : Eval α := fun m =>
  let (id, m) := m.acquire r
  match body id m with
  | .ok a m => .ok a (m.release id)
  | .error e m => .error e (m.release id)

/-- The reference in a slot. -/
def pooled (id : RefId) : Eval Reference := do
  match (← get).references.get? id with
  | some r => return r
  | none => fail .invalidTarget

/-- Reading a slot has no effect, and an empty slot is an invalid target. -/
theorem pooled_eq (id : RefId) (m : Machine) :
    pooled id m = match m.references.get? id with
      | some r => .ok r m
      | none => .error (.ofCause .invalidTarget) m := by
  change (match m.references.get? id with
    | some r => return r
    | none => fail .invalidTarget : Eval Reference) m = _
  cases m.references.get? id <;> rfl

/-- What is done with the reference in a slot. -/
theorem pooled_bind {α : Type} (id : RefId) (f : Reference → Eval α) (m : Machine) :
    (pooled id >>= f) m = match m.references.get? id with
      | some r => f r m
      | none => .error (.ofCause .invalidTarget) m := by
  change EStateM.bind (pooled id) f m = _
  rw [EStateM.bind, pooled_eq]
  cases m.references.get? id <;> rfl

/-- Reads through the reference in a slot. -/
def getValue (id : RefId) : Eval Value := do
  match ← pooled id with
  | .binding name scope =>
    match ((← get).env.store.scope scope).getOwn? name with
    | some v => return v
    | none => fail (.undeclared name)
  | .unresolvable name => fail (.undeclared name)
  | .property base key => lift (getProperty base key)

/-- Writes through the reference in a slot. -/
def putValue (s : Settings) (id : RefId) (v : Value) : Eval Unit := do
  match ← pooled id with
  | .binding name scope => writeName s (some scope) name v
  | .unresolvable name => writeName s none name v
  | .property base key => lift (putProperty s.strict base key v)

/-! ### Operators -/

/-- The operator method for two operands. -/
def lookupMethod (op : BinaryOp) (l r : Value) : Eval (Option OperatorMethod) := do
  let m ← get
  match m.resolver? with
  | some resolver =>
    let (method?, resolver) := resolver.lookup m.world.heap op l r
    set { m with resolver? := some resolver }
    return method?
  | none => return none

/-- Calls the operator method for two operands, if there is one. -/
def dispatch? (s : Settings) (op : BinaryOp) (l r : Value) : Eval (Option Value) := do
  match ← lookupMethod op l r with
  | some method =>
    modify fun m => { m with resolver? := m.resolver?.map Resolver.countDispatch }
    return some (← lift (method.invoke s.host l r))
  | none => return none

/-- Whether host types may overload an operator. -/
def isOverloadable (op : BinaryOp) : Bool :=
  op.methodName?.isSome

/-- The result of an operator on two values. An operator method comes first. -/
def operate (s : Settings) (op : BinaryOp) (l r : Value) : Eval Value := do
  let overloaded? ← if isOverloadable op then dispatch? s op l r else pure none
  match overloaded? with
  | some v => return v
  | none => lift (op.evaluate s.host l r)

end Eval

end ScriptOps
