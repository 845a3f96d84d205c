import ScriptOps.World

/-!
# Sources of patterns

A pattern takes a value apart. By position it takes the elements of an array or the characters of a
string, by key the properties of any value but undefined and null.
-/

namespace ScriptOps

/-- What an array pattern takes its elements from. -/
inductive ElementSource where
  /-- An array, read as its elements are when their turn comes. -/
  | array (id : ObjectId)
  /-- The characters of a string. -/
  | characters (cs : List Char)

/-- The source that a value is. -/
def elementSource (v : Value) : Action ElementSource := do
  let h ← Action.heap
  match v with
  | .primitive (.str s) => return .characters s.toList
  | .primitive p => Action.fail (.notIterable p.display)
  | .object id =>
    if (h.kind id).elements?.isSome then return .array id
    else Action.fail (.notIterable (h.displayObject id))

/-- The element at an index, with undefined for holes and past the end. -/
def ElementSource.get (h : Heap) (index : Nat) : ElementSource → Value
  | array id => ((h.kind id).elements?.bind (·.get? index)).getD .undefined
  | characters cs =>
    match cs[index]? with
    | some c => .str c.toString
    | none => .undefined

/-- Refuses to take undefined and null apart by keys. The message speaks of the first key. -/
def checkRecord (keys : List String) (v : Value) : Action Unit :=
  match v with
  | .primitive p =>
    if p.isNullish then Action.fail (.propertyOfNullish (keys.headD "") p.display) else return ()
  | .object _ => return ()

end ScriptOps
