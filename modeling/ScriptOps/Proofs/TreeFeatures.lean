import ScriptOps.Node

/-!
# Features of trees

What a tree has in it that bears on the bindings that its evaluation writes and on the places of its
errors: the positions of its nodes, the targets of its assignments, and its patterns. A target that
is an element of a pattern is told from one that an assignment writes directly, because only the
latter has an operator, and a position of its own.
-/

namespace ScriptOps

/-- What a tree has in it that bears on writes and on the places of errors. What is assigned to
comes with the operator of the assignment, and with `none` as an element of a pattern. -/
inductive Feature where
  /-- The position of an identifier, a member, a call, an operator or an assignment. -/
  | position (span : Span)
  /-- A name that is assigned to. -/
  | written (op? : Option AssignOp) (name : String)
  /-- A target that is no reference. -/
  | invalid (op? : Option AssignOp)
  | arrayPattern
  | objectPattern (keys : List String)

mutual

/-- The features of a tree. -/
def Node.features : Node → List Feature
  | .constant _ | .function .. => []
  | .identifier _ span => [.position span]
  | .member m => m.features
  | .call callee args span => .position span :: (callee.features ++ Node.featuresAll args)
  | .array elements => Node.featuresAll elements
  | .object entries => Node.featuresEntries entries
  | .binary _ left right span => .position span :: (left.features ++ right.features)
  | .assign op target value span =>
    .position span :: (target.features (some op) ++ value.features)

/-- The features of the trees of a list. -/
def Node.featuresAll : List Node → List Feature
  | [] => []
  | n :: rest => n.features ++ Node.featuresAll rest

/-- The features of the trees of the entries. -/
def Node.featuresEntries : List (String × Node) → List Feature
  | [] => []
  | (_, n) :: rest => n.features ++ Node.featuresEntries rest

/-- The features of a member. -/
def Member.features : Member → List Feature
  | .mk object key span => .position span :: (object.features ++ key.features)

/-- The features of a key. -/
def Key.features : Key → List Feature
  | .named _ => []
  | .computed n => n.features

/-- The features of a target. -/
def Target.features (op? : Option AssignOp) : Target → List Feature
  | .identifier name => [.written op? name]
  | .member m => m.features
  | .pattern p => p.features
  | .invalid n => .invalid op? :: n.features

/-- The features of a pattern. -/
def Pattern.features : Pattern → List Feature
  | .array targets => .arrayPattern :: Target.featuresSlots targets
  | .object entries => .objectPattern (entries.map (·.1)) :: Target.featuresEntries entries

/-- The features of the targets by position. -/
def Target.featuresSlots : List (Option Target) → List Feature
  | [] => []
  | none :: rest => Target.featuresSlots rest
  | some target :: rest => target.features none ++ Target.featuresSlots rest

/-- The features of the targets by key. -/
def Target.featuresEntries : List (String × Target) → List Feature
  | [] => []
  | (_, target) :: rest => target.features none ++ Target.featuresEntries rest

end

/-- The position of a member is among its features. -/
theorem Member.position_mem_features (m : Member) : .position m.span ∈ m.features := by
  cases m
  simp [Member.features, Member.span]

/-- Whether a tree assigns to a name, directly or in a pattern. -/
def Node.Assigns (n : Node) (name : String) : Prop :=
  ∃ op?, .written op? name ∈ n.features

end ScriptOps
