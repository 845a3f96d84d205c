import ScriptOps.World

/-!
# Scripted hosts

A host whose callbacks follow fixed scripts: they return, throw, assign and create. What a callback
does depends on its script, its arguments and the number of its earlier calls alone, so the runs of
a scripted host can be told in advance.
-/

namespace ScriptOps

/-- What a scripted callback does. -/
inductive Behavior where
  | answer (v : Value)
  | fail (c : Cause)
  /-- Fails in the host, each time with a failure of its own. -/
  | failure (message : String)
  /-- Answers with the receiver of the call. -/
  | receiver
  /-- Answers with an argument. -/
  | argument (index : Nat)
  /-- Answers with the number of arguments. -/
  | argumentCount
  /-- Answers with the number of the call, from one. -/
  | callCount
  /-- Answers with the next value of a list, and with the last one for ever. -/
  | sequence (values : List Value)
  /-- Answers with a new object. -/
  | fresh
  /-- Assigns to a property, and goes on. -/
  | assign (id : ObjectId) (key : String) (v : Value) (next : Behavior)
  /-- Answers with a new host object that carries the sum of the first two arguments. -/
  | sum (type : HostType)
  /-- Answers with the value that the converted object carries. -/
  | payload
deriving Inhabited

/-- The circumstances of a call. -/
structure Occasion where
  /-- The number of earlier calls. -/
  earlier : Nat
  /-- The receiver. -/
  receiver : Value
  /-- The arguments. -/
  args : List Value
  /-- The value that the converted object carries. -/
  payload : Value
  /-- The number of events before the call, by which its failure is known. -/
  moment : Nat
deriving Inhabited

/-- The behaviour of a host object. -/
inductive HostScript where
  /-- Leaves conversion and equality alone. -/
  | plain
  /-- Converts by a behaviour for each hint, and equals the objects of its type with its mark. -/
  | scripted (conversion? : Hint → Option Behavior) (mark? : Option String)

/-- The behaviours of a host. -/
structure Script where
  /-- The behaviours of its functions, by their numbers. -/
  natives : List Behavior
  /-- The behaviours of its objects, by their handles. -/
  objects : List HostScript
  /-- The behaviours of its operator methods, by their numbers. -/
  methods : List Behavior

/-- The name of a hint. -/
def Hint.name : Hint → String
  | default => "default"
  | number => "number"
  | string => "string"

namespace Script

/-- The script of a host object. Objects that came up later convert to what they carry. -/
def objectScript (s : Script) (o : HostObject) : HostScript :=
  (s.objects[o.handle]?).getD (.scripted (fun _ => some .payload) none)

/-- The mark of a host object. -/
def mark? (s : Script) (o : HostObject) : Option String :=
  match s.objectScript o with
  | .plain => none
  | .scripted _ mark? => mark?

/-- Whether a host object has a script of its own or came up later. -/
def isScripted (s : Script) (o : HostObject) : Bool :=
  match s.objectScript o with
  | .plain => false
  | .scripted .. => true

/-- The number that a value adds to a sum. -/
def summand (s : Script) (h : Heap) (v : Value) : Float :=
  let carried := match h.hostObject? v with
    | some o => if s.isScripted o then o.payload?.getD .undefined else v
    | none => v
  carried.float?.getD nan

/-- The reaction of a behaviour. -/
def react (s : Script) (h : Heap) (o : Occasion) : Behavior → Reaction
  | .answer v => .answer v
  | .fail c => .fail (.ofCause c)
  | .failure message => .fail (.ofCause (.host ⟨o.moment⟩ message))
  | .receiver => .answer o.receiver
  | .argument index => .answer (o.args.getD index .undefined)
  | .argumentCount => .answer (Primitive.ofInt o.args.length)
  | .callCount => .answer (Primitive.ofInt (o.earlier + 1))
  | .sequence values => .answer (values.getD (min o.earlier (values.length - 1)) .undefined)
  | .fresh => .create .ordinary fun id => .answer (.object id)
  | .assign id key v next => .write id key v fun _ => s.react h o next
  | .sum type =>
    let sum := s.summand h (o.args.getD 0 .undefined) + s.summand h (o.args.getD 1 .undefined)
    let carried : Value := Primitive.ofFloat sum
    .create (.host ⟨type, some carried, fun _ => none, s.objects.length⟩) fun id =>
      .answer (.object id)
  | .payload => .answer o.payload

/-- The number of requests in a trace that pass a test. -/
def countInvoked (trace : List Event) (test : Callback → Bool) : Nat :=
  trace.countP fun
    | .invoked c => test c
    | _ => false

/-- Whether a request is a call of a host function. -/
def isCallOf (id : NativeId) : Callback → Bool
  | .native other _ _ => id = other
  | _ => false

/-- Whether a request is a call of an operator method. -/
def isOperation (method : Nat) : Callback → Bool
  | .operator other _ _ => method = other
  | _ => false

/-- The reaction to a request. -/
def respond (s : Script) (c : Callback) (w : World) : Reaction :=
  match c with
  | .native id receiver args =>
    let earlier := countInvoked w.trace (isCallOf id)
    let occasion := ⟨earlier, receiver, args, .undefined, w.trace.length⟩
    s.react w.heap occasion (s.natives.getD id.index (.answer .undefined))
  | .conversion o hint =>
    let behavior? := match s.objectScript o with
      | .plain => none
      | .scripted conversion? _ => conversion? hint
    let carried := o.payload?.getD .undefined
    let occasion := ⟨0, .undefined, [.str hint.name], carried, w.trace.length⟩
    s.react w.heap occasion (behavior?.getD (.fail .notPrimitive))
  | .operator method left right =>
    let earlier := countInvoked w.trace (isOperation method)
    let occasion := ⟨earlier, .undefined, [left, right], .undefined, w.trace.length⟩
    s.react w.heap occasion (s.methods.getD method (.answer .undefined))

/-- The equality of a host object: the other one has its type and its mark. -/
def equality? (s : Script) (o : HostObject) : Option (HostObject → Bool) :=
  if s.isScripted o then
    some fun other => o.type.id = other.type.id && (s.mark? o).isSome && s.mark? o == s.mark? other
  else none

/-- The host that follows a script. -/
def host (s : Script) (depth : Nat) : Host where
  react := s.respond
  converts := s.isScripted
  equality? := s.equality?
  depth

end Script

end ScriptOps
