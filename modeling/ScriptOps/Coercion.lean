import ScriptOps.Calendar
import ScriptOps.World

/-!
# Conversions

Primitives convert without effects. An object converts to a primitive first: a host object by the
host, any other through the methods `valueOf` and `toString`, in an order that the hint decides. A
method that is found nowhere on the prototype chain is supplied by the kind of the object; one that
is found but cannot be called is passed over, and so is a result that is an object.
-/

namespace ScriptOps

/-- A method that converts an object. -/
inductive ConversionMethod where
  | valueOf | toString
deriving DecidableEq, Inhabited

namespace ConversionMethod

/-- The property that holds the method. -/
def key : ConversionMethod → String
  | valueOf => "valueOf"
  | toString => "toString"

/-- The order in which the methods are tried. Dates prefer strings. -/
def order (kind : ObjectKind) (hint : Hint) : List ConversionMethod :=
  let prefersString := match hint, kind with
    | .string, _ => true
    | .default, .date _ => true
    | _, _ => false
  if prefersString then [toString, valueOf] else [valueOf, toString]

end ConversionMethod

namespace Coercion

/-! ### The text of an array -/

/-- The longest string that a join may give, `2 ^ 30 - 25` bytes. -/
def maxTextLength : Nat := 0x40000000 - 25

/-- Appends the texts of `count` elements from an index on, each after a comma except the one at
index 0. Holes and nullish elements are empty. The elements are read as they are when their turn
comes. -/
def joinFrom (text : Value → Action String) (array : ObjectId) :
    (count index : Nat) → String → Action String
  | 0, _, joined => return joined
  | count + 1, index, joined => do
    let joined := if index = 0 then joined else joined ++ ","
    let element? := (((← Action.heap).kind array).elements?.bind (·.get? index)).filter
      fun v => !v.isNullish
    let joined ← match element? with
      | some v => pure (joined ++ (← text v))
      | none => pure joined
    if joined.utf8ByteSize > maxTextLength then Action.fail .stringTooLong
    else joinFrom text array count (index + 1) joined

/-- The texts of the elements of an array, separated by commas. -/
def join (text : Value → Action String) (array : ObjectId) (e : Elements) : Action String :=
  if e.length > maxTextLength then Action.fail .stringTooLong
  else joinFrom text array e.length 0 ""

/-! ### Methods -/

/-- The text of a function. Its body is not kept. -/
def functionText (f : FunctionData) : String :=
  match f.kind with
  | .classLiteral => "class " ++ f.name ++ " \x7b \x7d"
  | .function | .arrow => "function " ++ f.name ++ "() \x7b [native code] \x7d"

/-- What a method does that no object on the chain has. -/
def builtinMethod (text : Value → Action String) (id : ObjectId) (method : ConversionMethod) :
    Action Value := do
  let kind := (← Action.heap).kind id
  match method, kind with
  | .valueOf, .date time => return Primitive.ofFloat time
  | .valueOf, _ => return .object id
  | .toString, .array e => return .str (← join text id e)
  | .toString, .function f => return .str (functionText f)
  | .toString, .date time => return .str (dateText time)
  | .toString, _ => return .str "[object Object]"

/-- The result of a method of an object, and `none` if the method cannot be called. -/
def runMethod? (host : Host) (text : Value → Action String) (id : ObjectId)
    (method : ConversionMethod) : Action (Option Value) := do
  let h ← Action.heap
  if h.has id method.key then
    match h.get id method.key with
    | .object f => if h.isCallable f then some <$> host.call f (.object id) [] else return none
    | .primitive _ => return none
  else some <$> builtinMethod text id method

/-- The first primitive that a list of methods gives. -/
def firstPrimitive (run? : ConversionMethod → Action (Option Value)) :
    List ConversionMethod → Action Primitive
  | [] => Action.fail .notPrimitive
  | method :: rest => do
    match ← run? method with
    | some (.primitive p) => return p
    | _ => firstPrimitive run? rest

/-- Asks the host for the primitive of one of its objects. -/
def hostPrimitive (host : Host) (o : HostObject) (hint : Hint) : Action Primitive := do
  if host.converts o then
    match ← host.ask (.conversion o hint) with
    | .primitive p => return p
    | .object _ => Action.fail .notPrimitive
  else Action.fail .notPrimitive

/-- The primitive of an object, at most `depth` conversions deep. -/
def objectPrimitive (host : Host) : (depth : Nat) → Hint → ObjectId → Action Primitive
  | 0, _, _ => Action.fail .nestedTooDeeply
  | depth + 1, hint, id => do
    match (← Action.heap).kind id with
    | .host o => hostPrimitive host o hint
    | .hostType t => return .str ("function " ++ t.name ++ "() \x7b [native code] \x7d")
    | kind =>
      let text : Value → Action String
        | .primitive p => return p.toText
        | .object element => return (← objectPrimitive host depth .string element).toText
      firstPrimitive (runMethod? host text id) (ConversionMethod.order kind hint)

end Coercion

/-! ### Conversions of values -/

namespace Host

/-- The primitive of a value. Primitives are their own. -/
def toPrimitive (host : Host) (hint : Hint) : Value → Action Primitive
  | .primitive p => return p
  | .object id => Coercion.objectPrimitive host host.depth hint id

/-- The numeric value of a value. -/
def toFloat (host : Host) (v : Value) : Action Float :=
  return (← host.toPrimitive .number v).toFloat

/-- The string value of a value. -/
def toText (host : Host) (v : Value) : Action String :=
  return (← host.toPrimitive .string v).toText

/-- The numeric value of a value modulo `2 ^ 32`, with a sign. -/
def toInt32 (host : Host) (v : Value) : Action Int32 :=
  return (← host.toPrimitive .number v).toInt32

/-- The numeric value of a value modulo `2 ^ 32`, without a sign. -/
def toUInt32 (host : Host) (v : Value) : Action UInt32 :=
  return (← host.toPrimitive .number v).toUInt32

/-- The property key that a value denotes. -/
def toPropertyKey (host : Host) (v : Value) : Action String :=
  host.toText v

end Host

end ScriptOps
