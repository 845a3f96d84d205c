import ScriptOps.Error
import ScriptOps.Node

/-!
# The world of an evaluation

Evaluations act on a world: the heap, and the trace of what was observed from outside. The host
takes part through callbacks. A callback does not touch the heap itself; it answers with a
`Reaction`, a plan of the steps that a host may take, and the steps act on the heap as scripts do.
So whatever holds of every step holds of every host.

The steps are an assumption on hosts. While it answers, a host may assign to properties, create
objects and set prototypes, as often as it likes and depending on the outcomes. It does not define
properties as read-only or over read-only ones, it does not name functions, and it neither calls
functions nor converts values, so callbacks do not nest. Every theorem about all hosts is about all
hosts of this kind.
-/

namespace ScriptOps

/-- A request to the host. -/
inductive Callback where
  /-- A call of a host function. -/
  | native (id : NativeId) (receiver : Value) (args : List Value)
  /-- A conversion of a host object to a primitive. -/
  | conversion (object : HostObject) (hint : Hint)
  /-- A call of an operator method, by its number in the catalog. -/
  | operator (method : Nat) (left right : Value)
deriving Inhabited

/-- Something that is observed from outside. -/
inductive Event where
  /-- The host was asked. -/
  | invoked (c : Callback)
  /-- Two host objects were compared by the host. -/
  | compared (left right : HostObject)
  /-- The host assigned to a property, and the assignment was accepted or refused. -/
  | wrote (accepted : Bool)
  /-- A pattern was handed to a collaborator with the value to take apart. -/
  | handed (p : Pattern) (v : Value)
deriving Inhabited

/-- The heap, and what was observed so far. -/
structure World where
  /-- The objects. -/
  heap : Heap
  /-- The events, the latest first. -/
  trace : List Event
deriving Inhabited

/-- What a host does when it is asked: steps on the heap, and an answer. Hosts are assumed to take
no other steps: they define no properties, name no functions, call none and convert nothing. -/
inductive Reaction where
  | answer (v : Value)
  | fail (e : Error)
  /-- Assigns to a property, and goes on with the outcome. -/
  | write (id : ObjectId) (key : String) (v : Value) (next : Bool → Reaction)
  /-- Creates an object, and goes on with its identity. -/
  | create (kind : ObjectKind) (next : ObjectId → Reaction)
  /-- Sets a prototype, and goes on with the outcome. -/
  | link (id : ObjectId) (prototype? : Option ObjectId) (next : Bool → Reaction)

/-- A host: what it does when it is asked in a world, which of its objects convert themselves, how
its objects compare with each other, and how far its stack reaches. It is assumed to act by
`Reaction` alone. -/
structure Host where
  /-- The reaction to a request. -/
  react : Callback → World → Reaction
  /-- Whether an object has a conversion of its own. Without one it has no primitive value. -/
  converts : HostObject → Bool
  /-- The equality that an object brings, if any. -/
  equality? : HostObject → Option (HostObject → Bool)
  /-- How deep conversions may nest. Arrays that contain themselves would convert for ever. -/
  depth : Nat

/-- An effect on the world that may fail. A failure keeps what was done before it. -/
abbrev Action := EStateM Error World

namespace Action

/-- Fails for a cause. -/
def fail {α : Type} (c : Cause) : Action α :=
  throw (.ofCause c)

/-- The heap as it is. -/
def heap : Action Heap :=
  return (← get).heap

/-- Replaces the heap. -/
def setHeap (h : Heap) : Action Unit :=
  modify fun w => { w with heap := h }

/-- Observes an event. -/
def observe (e : Event) : Action Unit :=
  modify fun w => { w with trace := e :: w.trace }

/-- Creates an object. -/
def create (kind : ObjectKind) : Action ObjectId := do
  let (id, h) := (← heap).create kind
  setHeap h
  return id

/-- Creates a function. -/
def createFunction (name : String) (kind : FunctionKind) : Action ObjectId := do
  let (id, h) := (← heap).createFunction name kind
  setHeap h
  return id

/-- Names a function that has no name yet. -/
def nameFunction (v : Value) (name : String) : Action Unit :=
  match v with
  | .object id => do setHeap ((← heap).nameFunction id name)
  | .primitive _ => return ()

/-- Assigns to a property of an object, and tells whether it was accepted. -/
def assign (id : ObjectId) (key : String) (v : Value) : Action Bool := do
  match (← heap).set? id key v with
  | some h => setHeap h; return true
  | none => return false

/-- A property is assigned in the heap, or it is refused and the world stays. -/
theorem assign_eq (id : ObjectId) (key : String) (v : Value) (w : World) :
    assign id key v w = match w.heap.set? id key v with
      | some heap => .ok true { w with heap }
      | none => .ok false w := by
  change (match w.heap.set? id key v with
    | some h => (do setHeap h; return true : Action Bool)
    | none => return false) w = _
  cases w.heap.set? id key v <;> rfl

/-- Sets the prototype of an object, and tells whether it was accepted. -/
def link (id : ObjectId) (prototype? : Option ObjectId) : Action Bool := do
  match (← heap).setPrototype? id prototype? with
  | some h => setHeap h; return true
  | none => return false

/-- Setting a prototype tells whether it was accepted; a refusal leaves the world as it was. -/
theorem link_eq (id : ObjectId) (prototype? : Option ObjectId) (w : World) :
    link id prototype? w = match w.heap.setPrototype? id prototype? with
      | some heap => .ok true { w with heap }
      | none => .ok false w := by
  change (match w.heap.setPrototype? id prototype? with
    | some h => (do setHeap h; return true : Action Bool)
    | none => return false) w = _
  cases w.heap.setPrototype? id prototype? <;> rfl

end Action

/-- Carries a reaction out. -/
def Reaction.run : Reaction → Action Value
  | answer v => return v
  | fail e => throw e
  | write id key v next => do
    let accepted ← Action.assign id key v
    Action.observe (.wrote accepted)
    (next accepted).run
  | create kind next => do
    let id ← Action.create kind
    (next id).run
  | link id prototype? next => do
    let accepted ← Action.link id prototype?
    (next accepted).run

namespace Host

/-- Asks the host. -/
def ask (host : Host) (c : Callback) : Action Value := do
  let w ← get
  Action.observe (.invoked c)
  (host.react c w).run

/-- Calls an object. Functions without a host function behind them give undefined. -/
def call (host : Host) (callee : ObjectId) (receiver : Value) (args : List Value) :
    Action Value := do
  let h ← Action.heap
  match h.kind callee with
  | .function f =>
    match f.native? with
    | some id => host.ask (.native id receiver args)
    | none =>
      match f.kind with
      | .classLiteral => Action.fail (.classCalled f.name)
      | .function | .arrow => return .undefined
  | _ => Action.fail (.notCallable (h.displayObject callee))

end Host

end ScriptOps
