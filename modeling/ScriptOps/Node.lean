import ScriptOps.Operator
import ScriptOps.Span
import ScriptOps.Value
import ScriptOps.FunctionKind

/-!
# Trees for evaluation

The trees that are evaluated. A pattern occurs only as a target of an assignment, so a tree has no
misplaced pattern; a target that is no reference is kept, because it is evaluated before the
assignment fails.
-/

namespace ScriptOps

mutual

/-- A tree that evaluates to a value. -/
inductive Node where
  | constant (v : Value)
  | identifier (name : String) (span : Span)
  | member (m : Member)
  | call (callee : Node) (args : List Node) (span : Span)
  | function (name? : Option String) (kind : FunctionKind)
  | array (elements : List Node)
  | object (entries : List (String × Node))
  | binary (op : BinaryOp) (left right : Node) (span : Span)
  | assign (op : AssignOp) (target : Target) (value : Node) (span : Span)

/-- An object and the key of one of its properties. -/
inductive Member where
  | mk (object : Node) (key : Key) (span : Span)

/-- The key of a member. -/
inductive Key where
  | named (name : String)
  | computed (key : Node)

/-- What an assignment writes to. -/
inductive Target where
  | identifier (name : String)
  | member (m : Member)
  | pattern (p : Pattern)
  /-- An expression that is no reference. -/
  | invalid (n : Node)

/-- A pattern that takes a value apart. -/
inductive Pattern where
  /-- By position; `none` skips a position. -/
  | array (targets : List (Option Target))
  /-- By key. -/
  | object (entries : List (String × Target))

end

instance : Inhabited Node := ⟨.constant .undefined⟩

instance : Inhabited Pattern := ⟨.array []⟩

namespace Node

/-- Whether the tree is a constant. -/
def isConstant : Node → Bool
  | constant _ => true
  | _ => false

/-- Whether the tree is a function literal without a name. -/
def isAnonymousFunction : Node → Bool
  | function none _ => true
  | _ => false

end Node

/-- The position of a member. -/
def Member.span : Member → Span
  | mk _ _ span => span

end ScriptOps
