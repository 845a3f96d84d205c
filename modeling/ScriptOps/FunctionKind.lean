/-!
# Kinds of functions
-/

namespace ScriptOps

/-- The kinds of function literals. -/
inductive FunctionKind where
  /-- A plain function. -/
  | function
  /-- An arrow function, which has no prototype object. -/
  | arrow
  /-- A class, which cannot be called. -/
  | classLiteral
deriving DecidableEq, Inhabited

end ScriptOps
