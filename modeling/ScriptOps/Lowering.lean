import ScriptOps.BinaryOperation
import ScriptOps.Expr
import ScriptOps.Node

/-!
# Lowering of expressions

Lowering turns an expression of an arena into a tree. It finds the defects that an arena may have,
in the order in which evaluation would meet the parts, and it folds: an operator on two constant
primitives becomes the constant that it gives, when this depends on nothing else. The number of
folded operators is counted, also of those before a defect.
-/

namespace ScriptOps

/-- A defect of an expression. -/
inductive BuildError where
  /-- No expression is at a place. -/
  | missing (id : ExprId)
  /-- A pattern is not the target of a plain assignment. -/
  | misplacedPattern (span : Span)
  /-- No operator has a symbol. -/
  | unknownOperator (token : String)
  /-- An expression contains itself. -/
  | cyclic (id : ExprId)
deriving DecidableEq, Inhabited

/-- The text of a defect. -/
def BuildError.message : BuildError → String
  | missing id => "expression ExprId(" ++ toString id ++ ") is not in the arena"
  | misplacedPattern span =>
    "destructuring pattern at " ++ span.text ++ " is only valid as the target of \x60=\x60"
  | unknownOperator token => "unrecognized binary operator \x60" ++ token ++ "\x60"
  | cyclic id => "expression ExprId(" ++ toString id ++ ") contains itself"

namespace Node

/-- How an operator and its two operands become a tree. -/
abbrev Combine := BinaryOp → Node → Node → Span → Node

/-- Keeps the operator, unless it can be folded. -/
def folding : Combine
  | op, .constant (.primitive p), .constant (.primitive q), span =>
    match op.fold? p q with
    | some v => .constant v
    | none => .binary op (.constant p) (.constant q) span
  | op, l, r, span => .binary op l r span

/-- The tree of an operator given by its symbol. -/
def ofToken (token : String) (l r : Node) (span : Span) : Except BuildError Node :=
  match BinaryOp.ofSymbol? token with
  | some op => .ok (folding op l r span)
  | none => .error (.unknownOperator token)

/-- Lowering fails with a defect, and counts the operators that it folds. -/
abbrev Lowering := EStateM BuildError Nat

/-- Combines an operator with its operands, and counts it if a constant is left. -/
def lowerBinary (combine : Combine) (op : BinaryOp) (l r : Node) (span : Span) : Lowering Node := do
  let node := combine op l r span
  if node.isConstant then modify (· + 1)
  return node

/-- Lowers a member by a way to lower its parts. -/
def lowerMember (lower : ExprId → Lowering Node) (base : ExprId) (key : ExprKey) (span : Span) :
    Lowering Member := do
  let base ← lower base
  match key with
  | .named name => return .mk base (.named name) span
  | .computed key => return .mk base (.computed (← lower key)) span

/-- The value of a literal. Numbers are canonical. -/
def literal : Primitive → Value
  | .number x => Primitive.ofFloat x
  | p => p

mutual

/-- Lowers the expression at a place, at most `fuel` steps deep. -/
def lowerUpTo (combine : Combine) (a : Arena) : (fuel : Nat) → ExprId → Lowering Node
  | 0, id => throw (.cyclic id)
  | fuel + 1, id => do
    let some e := a.get? id | throw (.missing id)
    match e.form with
    | .literal p => return .constant (literal p)
    | .identifier name => return .identifier name e.span
    | .member base key =>
      return .member (← lowerMember (lowerUpTo combine a fuel) base key e.span)
    | .call callee args =>
      let callee ← lowerUpTo combine a fuel callee
      let args ← args.mapM (lowerUpTo combine a fuel)
      return .call callee args e.span
    | .function name? kind => return .function name? kind
    | .array elements => return .array (← elements.mapM (lowerUpTo combine a fuel))
    | .object entries =>
      return .object (← entries.mapM fun (key, id) => return (key, ← lowerUpTo combine a fuel id))
    | .binary op l r =>
      let l ← lowerUpTo combine a fuel l
      let r ← lowerUpTo combine a fuel r
      lowerBinary combine op l r e.span
    | .assign op target value =>
      let target ← lowerTargetUpTo combine a fuel (op == .assign) target
      let value ← lowerUpTo combine a fuel value
      return .assign op target value e.span
    | .arrayPattern _ | .objectPattern _ => throw (.misplacedPattern e.span)

/-- Lowers the target of an assignment, at most `fuel` steps deep. -/
def lowerTargetUpTo (combine : Combine) (a : Arena) :
    (fuel : Nat) → (patterns : Bool) → ExprId → Lowering Target
  | 0, _, id => throw (.cyclic id)
  | fuel + 1, patterns, id => do
    let some e := a.get? id | throw (.missing id)
    match e.form, patterns with
    | .identifier name, _ => return .identifier name
    | .member base key, _ =>
      return .member (← lowerMember (lowerUpTo combine a fuel) base key e.span)
    | .arrayPattern targets, true =>
      let targets ← targets.mapM fun
        | some id => return some (← lowerTargetUpTo combine a fuel true id)
        | none => return none
      return .pattern (.array targets)
    | .objectPattern entries, true =>
      let entries ← entries.mapM fun (key, id) =>
        return (key, ← lowerTargetUpTo combine a fuel true id)
      return .pattern (.object entries)
    | .arrayPattern _, false | .objectPattern _, false => throw (.misplacedPattern e.span)
    | _, _ => return .invalid (← lowerUpTo combine a fuel id)

end

/-- Lowers the expression at a place. No path through an arena without circles takes more than two
steps for each of its expressions. -/
def lowerWith (combine : Combine) (a : Arena) (id : ExprId) : Lowering Node :=
  lowerUpTo combine a (2 * a.exprs.size + 2) id

/-- Lowers the expression at a place, with folding. -/
def lower (a : Arena) (id : ExprId) : Lowering Node :=
  lowerWith folding a id

/-- Lowers the expression at a place, and keeps every operator. -/
def lowerPlain (a : Arena) (id : ExprId) : Lowering Node :=
  lowerWith .binary a id

end Node

end ScriptOps
