import ScriptOps.Assignment
import ScriptOps.Destructuring

/-!
# Evaluation of trees

Trees are evaluated from left to right. An assignment resolves its target first, then evaluates its
right-hand side, and then writes through what it resolved, so that the right-hand side cannot move
the target. Errors carry the position of the innermost operation that failed.

A pattern takes its value apart as `Settings.destructuring` says. With a collaborator, nested
patterns come back to it, each when the turn of its place comes.
-/

namespace ScriptOps

open Eval

mutual

/-- Evaluates a tree. -/
def evaluate (s : Settings) : Node → Eval Value
  | .constant v => return v
  | .identifier name span => do
    match (← get).env.lookup? name with
    | some v => return v
    | none => locate span (fail (.undeclared name))
  | .member m => do
    let (base, key) ← evaluateParts s m
    locate m.span (lift (getProperty base key))
  | .call (.member m) args span => do
    let (receiver, key) ← evaluateParts s m
    let callee ← locate m.span (lift (getProperty receiver key))
    let args ← evaluateAll s args
    locate span (lift (callValue s.host callee receiver args))
  | .call callee args span => do
    let callee ← evaluate s callee
    let args ← evaluateAll s args
    locate span (lift (callValue s.host callee .undefined args))
  | .function name? kind =>
    return .object (← lift (Action.createFunction (name?.getD "") kind))
  | .array elements => do
    let values ← evaluateAll s elements
    return .object (← lift (Action.create (.array (.ofList values))))
  | .object entries => do
    let id ← lift (Action.create .ordinary)
    evaluateEntries s id entries
    return .object id
  | .binary op left right span => do
    let l ← evaluate s left
    let r ← evaluate s right
    count fun stats => { stats with binaryEvaluations := stats.binaryEvaluations + 1 }
    locate span (operate s op l r)
  | .assign op (.identifier name) value span =>
    if op = .assign then
      locate span (assignName s name value.isAnonymousFunction (evaluate s value))
    else assignNameThrough s op name (evaluate s value) span
  | .assign op (.member m) value span => do
    let (base, key) ← evaluateParts s m
    locate span (withReference (.property base key) (assignThrough s op (evaluate s value)))
  | .assign _ (.pattern p) value _ => do
    let v ← evaluate s value
    assignPattern s p v
    return v
  | .assign _ (.invalid target) _ span => do
    let _ ← evaluate s target
    locate span (fail .invalidTarget)

/-- Evaluates trees in order. -/
def evaluateAll (s : Settings) : List Node → Eval (List Value)
  | [] => return []
  | n :: rest => do
    let v ← evaluate s n
    return v :: (← evaluateAll s rest)

/-- Evaluates the entries of an object literal, and assigns each to the object. -/
def evaluateEntries (s : Settings) (id : ObjectId) : List (String × Node) → Eval Unit
  | [] => return ()
  | (key, n) :: rest => do
    let v ← evaluate s n
    let _ ← lift (Action.assign id key v)
    evaluateEntries s id rest

/-- Evaluates the object of a member and its key. -/
def evaluateParts (s : Settings) : Member → Eval (Value × String)
  | .mk object (.named name) _ => do
    let base ← evaluate s object
    return (base, name)
  | .mk object (.computed key) span => do
    let base ← evaluate s object
    let key ← evaluate s key
    let key ← locate span (lift (computedKey s.host base key))
    return (base, key)

/-- Writes a value to an element of a pattern. -/
def assignTarget (s : Settings) (v : Value) : Target → Eval Unit
  | .identifier name => assignElement s name v
  | .member m => do
    let (base, key) ← evaluateParts s m
    locate m.span (lift (putProperty s.strict base key v))
  | .pattern p => assignPattern s p v
  | .invalid n => do
    let _ ← evaluate s n
    fail .invalidTarget

/-- Takes a value apart. -/
def assignPattern (s : Settings) : Pattern → Value → Eval Unit
  | .array targets, v => do
    match s.destructuring with
    | .elementwise => assignElements s (← lift (elementSource v)) 0 targets
    | .shared share =>
      lift (Action.observe (.handed (.array targets) v))
      assignShares s share v 0 targets
  | .object entries, v => do
    match s.destructuring with
    | .elementwise =>
      lift (checkRecord (entries.map (·.1)) v)
      assignProperties s v entries
    | .shared share =>
      lift (Action.observe (.handed (.object entries) v))
      assignShareEntries s share v entries

/-- Writes the elements of a source from an index on. -/
def assignElements (s : Settings) (source : ElementSource) (index : Nat) :
    List (Option Target) → Eval Unit
  | [] => return ()
  | none :: rest => assignElements s source (index + 1) rest
  | some target :: rest => do
    let v := source.get (← get).world.heap index
    assignTarget s v target
    assignElements s source (index + 1) rest

/-- Writes the properties of a value. -/
def assignProperties (s : Settings) (source : Value) : List (String × Target) → Eval Unit
  | [] => return ()
  | (key, target) :: rest => do
    let v ← lift (getProperty source key)
    assignTarget s v target
    assignProperties s source rest

/-- Writes the parts of a value that a collaborator gives to the places from an index on. -/
def assignShares (s : Settings) (share : Share) (v : Value) (index : Nat) :
    List (Option Target) → Eval Unit
  | [] => return ()
  | none :: rest => assignShares s share v (index + 1) rest
  | some target :: rest => do
    let part? := share (← get).world.heap v (.position index)
    part?.forM fun part => assignTarget s part target
    assignShares s share v (index + 1) rest

/-- Writes the parts of a value that a collaborator gives to the places with keys. -/
def assignShareEntries (s : Settings) (share : Share) (v : Value) :
    List (String × Target) → Eval Unit
  | [] => return ()
  | (key, target) :: rest => do
    let part? := share (← get).world.heap v (.key key)
    part?.forM fun part => assignTarget s part target
    assignShareEntries s share v rest

end

end ScriptOps
