import ScriptOps.Evaluation
import ScriptOps.Lowering

/-!
# Runs

A run lowers an expression and evaluates the tree. An expression with a defect is not evaluated.
-/

namespace ScriptOps

/-- Why a run fails. -/
inductive RunError where
  /-- The expression has a defect. -/
  | build (e : BuildError)
  /-- The evaluation failed. -/
  | eval (e : Error)
deriving Inhabited

/-- Lowers the expression at a place and evaluates it. -/
def run (s : Settings) (a : Arena) (id : ExprId) : EStateM RunError Machine Value :=
  match Node.lower a id 0 with
  | .ok n _ => EStateM.adaptExcept .eval (evaluate s n)
  | .error e _ => throw (.build e)

end ScriptOps
