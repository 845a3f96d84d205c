import ScriptOps.Operator
import ScriptOps.Span
import ScriptOps.Value
import ScriptOps.FunctionKind

/-!
# Expressions

Expressions as a parser leaves them: a flat arena in which each expression refers to its parts by
their places. Nothing forces a place to exist, or a pattern to stand where patterns are allowed;
`Node.lower` finds that out.
-/

namespace ScriptOps

/-- The place of an expression in its arena. -/
abbrev ExprId := Nat

/-- The key of a member expression. -/
inductive ExprKey where
  | named (name : String)
  | computed (key : ExprId)
deriving Inhabited

/-- The forms of expressions. -/
inductive ExprForm where
  | literal (value : Primitive)
  | identifier (name : String)
  | member (object : ExprId) (key : ExprKey)
  | call (callee : ExprId) (args : List ExprId)
  | function (name? : Option String) (kind : FunctionKind)
  | array (elements : List ExprId)
  | object (entries : List (String × ExprId))
  | binary (op : BinaryOp) (left right : ExprId)
  | assign (op : AssignOp) (target value : ExprId)
  /-- Targets of an assignment by position; `none` skips a position. -/
  | arrayPattern (targets : List (Option ExprId))
  /-- Targets of an assignment by key. -/
  | objectPattern (entries : List (String × ExprId))
deriving Inhabited

/-- An expression with its position in the source. -/
structure Expr where
  /-- The form. -/
  form : ExprForm
  /-- The position. -/
  span : Span
deriving Inhabited

/-- Expressions by their places. -/
structure Arena where
  /-- The expressions. -/
  exprs : Array Expr
deriving Inhabited

/-- The expression at a place. -/
def Arena.get? (a : Arena) (id : ExprId) : Option Expr :=
  a.exprs[id]?

end ScriptOps
