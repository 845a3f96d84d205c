/-!
# Operators

The binary operators and the assignment operators, with their symbols. A compound assignment names
the binary operator that it applies.
-/

namespace ScriptOps

/-- A binary operator. -/
inductive BinaryOp where
  | strictEq | strictNotEq | looseEq | looseNotEq
  | less | greater | lessEq | greaterEq
  | add | sub | mul | div | rem | exp
  | bitAnd | bitOr | bitXor | shiftLeft | shiftRight | shiftRightUnsigned
  | instanceOf | membership
deriving DecidableEq, Inhabited

namespace BinaryOp

/-- All binary operators, in order. -/
def all : List BinaryOp :=
  [.strictEq, .strictNotEq, .looseEq, .looseNotEq, .less, .greater, .lessEq, .greaterEq, .add, .sub,
    .mul, .div, .rem, .exp, .bitAnd, .bitOr, .bitXor, .shiftLeft, .shiftRight, .shiftRightUnsigned,
    .instanceOf, .membership]

/-- The symbol that stands for the operator. -/
def symbol : BinaryOp → String
  | strictEq => "==="
  | strictNotEq => "!=="
  | looseEq => "=="
  | looseNotEq => "!="
  | less => "<"
  | greater => ">"
  | lessEq => "<="
  | greaterEq => ">="
  | add => "+"
  | sub => "-"
  | mul => "*"
  | div => "/"
  | rem => "%"
  | exp => "**"
  | bitAnd => "&"
  | bitOr => "|"
  | bitXor => "^"
  | shiftLeft => "<<"
  | shiftRight => ">>"
  | shiftRightUnsigned => ">>>"
  | instanceOf => "instanceof"
  | membership => "in"

/-- The operator that a symbol stands for. -/
def ofSymbol? (token : String) : Option BinaryOp :=
  all.find? (·.symbol == token)

/-- The list of the binary operators is complete. -/
theorem mem_all (op : BinaryOp) : op ∈ all := by
  cases op <;> decide

/-- Every operator is found by its symbol. -/
theorem ofSymbol?_symbol (op : BinaryOp) : ofSymbol? op.symbol = some op := by
  cases op <;> decide

/-- Whether the result of the operator depends on its operands alone. Prototype chains and property
tables lie outside the operands, so the last two operators are left alone. -/
def isFoldable : BinaryOp → Bool
  | instanceOf | membership => false
  | _ => true

/-- The name under which host types overload the operator. -/
def methodName? : BinaryOp → Option String
  | add => some "op_Addition"
  | sub => some "op_Subtraction"
  | mul => some "op_Multiply"
  | div => some "op_Division"
  | rem => some "op_Modulus"
  | exp => some "op_Exponentiation"
  | bitAnd => some "op_BitwiseAnd"
  | bitOr => some "op_BitwiseOr"
  | bitXor => some "op_ExclusiveOr"
  | shiftLeft => some "op_LeftShift"
  | shiftRight => some "op_RightShift"
  | shiftRightUnsigned => some "op_UnsignedRightShift"
  | less => some "op_LessThan"
  | greater => some "op_GreaterThan"
  | lessEq => some "op_LessThanOrEqual"
  | greaterEq => some "op_GreaterThanOrEqual"
  | looseEq => some "op_Equality"
  | looseNotEq => some "op_Inequality"
  | strictEq | strictNotEq | instanceOf | membership => none

end BinaryOp

/-- An assignment operator. -/
inductive AssignOp where
  | assign
  | add | sub | mul | div | rem | exp
  | shiftLeft | shiftRight | shiftRightUnsigned
  | bitAnd | bitOr | bitXor
  | and | or | nullish
deriving DecidableEq, Inhabited

namespace AssignOp

/-- All assignment operators, in order. -/
def all : List AssignOp :=
  [.assign, .add, .sub, .mul, .div, .rem, .exp, .shiftLeft, .shiftRight, .shiftRightUnsigned,
    .bitAnd, .bitOr, .bitXor, .and, .or, .nullish]

/-- The binary operator that a compound assignment applies. -/
def binaryOp? : AssignOp → Option BinaryOp
  | add => some .add
  | sub => some .sub
  | mul => some .mul
  | div => some .div
  | rem => some .rem
  | exp => some .exp
  | shiftLeft => some .shiftLeft
  | shiftRight => some .shiftRight
  | shiftRightUnsigned => some .shiftRightUnsigned
  | bitAnd => some .bitAnd
  | bitOr => some .bitOr
  | bitXor => some .bitXor
  | assign | and | or | nullish => none

/-- The symbol that stands for the operator. -/
def symbol : AssignOp → String
  | assign => "="
  | and => "&&="
  | or => "||="
  | nullish => "??="
  | add => "+="
  | sub => "-="
  | mul => "*="
  | div => "/="
  | rem => "%="
  | exp => "**="
  | shiftLeft => "<<="
  | shiftRight => ">>="
  | shiftRightUnsigned => ">>>="
  | bitAnd => "&="
  | bitOr => "|="
  | bitXor => "^="

/-- The operator that a symbol stands for. -/
def ofSymbol? (token : String) : Option AssignOp :=
  all.find? (·.symbol == token)

/-- The list of the assignment operators is complete. -/
theorem mem_all (op : AssignOp) : op ∈ all := by
  cases op <;> decide

/-- Every operator is found by its symbol. -/
theorem ofSymbol?_symbol (op : AssignOp) : ofSymbol? op.symbol = some op := by
  cases op <;> decide

end AssignOp

end ScriptOps
