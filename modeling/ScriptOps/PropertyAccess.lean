import ScriptOps.Coercion
import ScriptOps.Text.Utf16

/-!
# Access to properties of values

Reading, writing and calling a property of any value. Strings have a length and their code units;
other primitives have nothing; undefined and null refuse.
-/

namespace ScriptOps

/-- A property of a string. -/
def textProperty (s key : String) : Primitive :=
  if key = "length" then .ofInt (Utf16.length s)
  else match (indexOfKey? key).bind (Utf16.unitAt? s) with
    | some unit => .str unit
    | none => .undefined

/-- Reads a property. -/
def getProperty (base : Value) (key : String) : Action Value :=
  match base with
  | .object id => return (← Action.heap).get id key
  | .primitive p =>
    match p with
    | .undefined | .null => Action.fail (.propertyOfNullish key p.display)
    | .str s => return textProperty s key
    | .bool _ | .int _ | .number _ => return .undefined

/-- Writes a property. Only strict code is told of a refusal. -/
def putProperty (strict : Bool) (base : Value) (key : String) (v : Value) : Action Unit :=
  match base with
  | .object id => do
    let accepted ← Action.assign id key v
    if strict && !accepted then
      Action.fail (.readOnlyProperty key ((← Action.heap).displayObject id))
  | .primitive p =>
    match p with
    | .undefined | .null => Action.fail (.propertyOfNullish key p.display)
    | _ => if strict then Action.fail (.propertyOfPrimitive key p.display) else return ()

/-! ### Keys and calls -/

/-- The text of a key in a message: strings stand for themselves. -/
def keyText (h : Heap) : Value → String
  | .str key => key
  | key => h.display key

/-- The property key that a computed key denotes. An undefined or null base is refused first. -/
def computedKey (host : Host) (base key : Value) : Action String :=
  match base with
  | .primitive .undefined | .primitive .null => do
    let h ← Action.heap
    Action.fail (.propertyOfNullish (keyText h key) (h.display base))
  | _ => host.toPropertyKey key

/-- Calls a value. -/
def callValue (host : Host) (callee receiver : Value) (args : List Value) : Action Value := do
  let h ← Action.heap
  match callee with
  | .object id =>
    if h.isCallable id then host.call id receiver args
    else Action.fail (.notCallable (h.displayObject id))
  | .primitive p => Action.fail (.notCallable p.display)

end ScriptOps
