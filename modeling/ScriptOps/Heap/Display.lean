import ScriptOps.Heap.Basic

/-!
# Values in messages
-/

namespace ScriptOps.Heap

/-- The text of an object in messages. -/
def displayObject (h : Heap) (id : ObjectId) : String :=
  match h.kind id with
  | .ordinary => "#<Object>"
  | .array _ => "#<Array>"
  | .function f =>
    match f.kind with
    | .classLiteral => "class " ++ f.name
    | .function | .arrow => "function " ++ f.name
  | .date _ => "#<Date>"
  | .host o => "#<" ++ o.type.name ++ ">"
  | .hostType t => "[type " ++ t.name ++ "]"

/-- The text of a value in messages. -/
def display (h : Heap) : Value → String
  | .primitive p => p.display
  | .object id => h.displayObject id

/-- What the `typeof` operator says of a value. -/
def typeName (h : Heap) : Value → String
  | .primitive p =>
    match p.type with
    | .undefined => "undefined"
    | .boolean => "boolean"
    | .number => "number"
    | .string => "string"
    | .null | .object => "object"
  | .object id => if h.isCallable id then "function" else "object"

end ScriptOps.Heap
