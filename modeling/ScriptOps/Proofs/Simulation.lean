import ScriptOps.Evaluation
import ScriptOps.Lowering
import ScriptOps.Proofs.MachineRelation

/-!
# Two evaluations side by side

`Eval.Simulation` says that a relation between effects on the machine is kept by sequencing and
relates what the primitive effects do under two settings. Then it relates the evaluations of every
tree under the two settings; the induction over trees is done here once, for all such relations. The
left tree may also be rebuilt: `Node.rebuild` puts each operator of a tree together anew, for
instance with folding.
-/

namespace ScriptOps

/-! ### Rebuilding trees -/

mutual

/-- The tree with each operator put together anew, from the operands upward. -/
def Node.rebuild (c : Node.Combine) : Node → Node
  | .constant v => .constant v
  | .identifier name span => .identifier name span
  | .member m => .member (m.rebuild c)
  | .call callee args span => .call (callee.rebuild c) (Node.rebuildAll c args) span
  | .function name? kind => .function name? kind
  | .array elements => .array (Node.rebuildAll c elements)
  | .object entries => .object (Node.rebuildEntries c entries)
  | .binary op left right span => c op (left.rebuild c) (right.rebuild c) span
  | .assign op target value span => .assign op (target.rebuild c) (value.rebuild c) span

/-- The trees of a list rebuilt. -/
def Node.rebuildAll (c : Node.Combine) : List Node → List Node
  | [] => []
  | n :: rest => n.rebuild c :: Node.rebuildAll c rest

/-- The trees of the entries rebuilt. -/
def Node.rebuildEntries (c : Node.Combine) : List (String × Node) → List (String × Node)
  | [] => []
  | (key, n) :: rest => (key, n.rebuild c) :: Node.rebuildEntries c rest

/-- The trees of a member rebuilt. -/
def Member.rebuild (c : Node.Combine) : Member → Member
  | .mk object key span => .mk (object.rebuild c) (key.rebuild c) span

/-- The tree of a key rebuilt. -/
def Key.rebuild (c : Node.Combine) : Key → Key
  | .named name => .named name
  | .computed n => .computed (n.rebuild c)

/-- The trees of a target rebuilt. -/
def Target.rebuild (c : Node.Combine) : Target → Target
  | .identifier name => .identifier name
  | .member m => .member (m.rebuild c)
  | .pattern p => .pattern (p.rebuild c)
  | .invalid n => .invalid (n.rebuild c)

/-- The trees of a pattern rebuilt. -/
def Pattern.rebuild (c : Node.Combine) : Pattern → Pattern
  | .array targets => .array (Target.rebuildSlots c targets)
  | .object entries => .object (Target.rebuildEntries c entries)

/-- The trees of the targets by position rebuilt. -/
def Target.rebuildSlots (c : Node.Combine) : List (Option Target) → List (Option Target)
  | [] => []
  | none :: rest => none :: Target.rebuildSlots c rest
  | some target :: rest => some (target.rebuild c) :: Target.rebuildSlots c rest

/-- The trees of the targets by key rebuilt. -/
def Target.rebuildEntries (c : Node.Combine) : List (String × Target) → List (String × Target)
  | [] => []
  | (key, target) :: rest => (key, target.rebuild c) :: Target.rebuildEntries c rest

end

mutual

/-- A tree whose operators are put together as they were is the same tree. -/
theorem Node.rebuild_binary : (n : Node) → n.rebuild .binary = n
  | .constant _ | .identifier .. | .function .. => rfl
  | .member m => by rw [Node.rebuild, m.rebuild_binary]
  | .call callee args _ => by
    rw [Node.rebuild, callee.rebuild_binary, Node.rebuildAll_binary args]
  | .array elements => by rw [Node.rebuild, Node.rebuildAll_binary elements]
  | .object entries => by rw [Node.rebuild, Node.rebuildEntries_binary entries]
  | .binary _ left right _ => by rw [Node.rebuild, left.rebuild_binary, right.rebuild_binary]
  | .assign _ target value _ => by
    rw [Node.rebuild, target.rebuild_binary, value.rebuild_binary]

theorem Node.rebuildAll_binary : (ns : List Node) → Node.rebuildAll .binary ns = ns
  | [] => rfl
  | n :: rest => by rw [Node.rebuildAll, n.rebuild_binary, Node.rebuildAll_binary rest]

theorem Node.rebuildEntries_binary :
    (entries : List (String × Node)) → Node.rebuildEntries .binary entries = entries
  | [] => rfl
  | (_, n) :: rest => by
    rw [Node.rebuildEntries, n.rebuild_binary, Node.rebuildEntries_binary rest]

theorem Member.rebuild_binary : (m : Member) → m.rebuild .binary = m
  | .mk object (.named _) _ => by rw [Member.rebuild, object.rebuild_binary, Key.rebuild]
  | .mk object (.computed key) _ => by
    rw [Member.rebuild, object.rebuild_binary, Key.rebuild, key.rebuild_binary]

theorem Target.rebuild_binary : (target : Target) → target.rebuild .binary = target
  | .identifier _ => rfl
  | .member m => by rw [Target.rebuild, m.rebuild_binary]
  | .pattern p => by rw [Target.rebuild, p.rebuild_binary]
  | .invalid n => by rw [Target.rebuild, n.rebuild_binary]

theorem Pattern.rebuild_binary : (p : Pattern) → p.rebuild .binary = p
  | .array targets => by rw [Pattern.rebuild, Target.rebuildSlots_binary targets]
  | .object entries => by rw [Pattern.rebuild, Target.rebuildEntries_binary entries]

theorem Target.rebuildSlots_binary :
    (targets : List (Option Target)) → Target.rebuildSlots .binary targets = targets
  | [] => rfl
  | none :: rest => by rw [Target.rebuildSlots, Target.rebuildSlots_binary rest]
  | some target :: rest => by
    rw [Target.rebuildSlots, target.rebuild_binary, Target.rebuildSlots_binary rest]

theorem Target.rebuildEntries_binary :
    (entries : List (String × Target)) → Target.rebuildEntries .binary entries = entries
  | [] => rfl
  | (_, target) :: rest => by
    rw [Target.rebuildEntries, target.rebuild_binary, Target.rebuildEntries_binary rest]

end

/-- The operator is kept, or a constant stands in its place. -/
def Node.Combine.IsFolding (c : Node.Combine) : Prop :=
  ∀ op l r span, (∃ v, c op l r span = .constant v) ∨ c op l r span = .binary op l r span

/-- Rebuilding a member access keeps its place. -/
@[simp] theorem Member.span_rebuild (c : Node.Combine) (m : Member) :
    (m.rebuild c).span = m.span := by
  cases m
  rfl

/-- Rebuilding the targets of a record pattern keeps its keys. -/
theorem Target.keys_rebuildEntries (c : Node.Combine) (entries : List (String × Target)) :
    (Target.rebuildEntries c entries).map (·.1) = entries.map (·.1) := by
  induction entries with
  | nil => rfl
  | cons entry rest ih => simp [Target.rebuildEntries, ih]

/-- Folding makes no function literal. -/
theorem Node.isAnonymousFunction_rebuild {c : Node.Combine} (hc : c.IsFolding) (n : Node) :
    (n.rebuild c).isAnonymousFunction = n.isAnonymousFunction := by
  cases n with
  | binary op l r span =>
    rcases hc op (l.rebuild c) (r.rebuild c) span with ⟨v, h⟩ | h <;>
      simp [Node.rebuild, h, Node.isAnonymousFunction]
  | _ => simp [Node.rebuild, Node.isAnonymousFunction]

open Eval

/-- Folding makes no member. -/
theorem Node.rebuild_ne_member {c : Node.Combine} (hc : c.IsFolding) {n : Node}
    (hn : ∀ m, n ≠ .member m) (m : Member) : n.rebuild c ≠ .member m := by
  cases n with
  | member m => exact absurd rfl (hn m)
  | binary op l r span =>
    rcases hc op (l.rebuild c) (r.rebuild c) span with ⟨v, h⟩ | h <;> simp [Node.rebuild, h]
  | _ => simp [Node.rebuild]

/-! ### Calls -/

/-- The function that a call calls, and the receiver. -/
def evaluateCallee (s : Settings) : Node → Eval (Value × Value)
  | .member m => do
    let (receiver, key) ← evaluateParts s m
    let callee ← locate m.span (lift (getProperty receiver key))
    return (callee, receiver)
  | callee => do
    let callee ← evaluate s callee
    return (callee, .undefined)

/-- A call evaluates what it calls, then its arguments. -/
theorem evaluate_call (s : Settings) (callee : Node) (args : List Node) (span : Span) :
    evaluate s (.call callee args span) = (do
      let (callee, receiver) ← evaluateCallee s callee
      let args ← evaluateAll s args
      locate span (lift (callValue s.host callee receiver args))) := by
  cases callee <;> simp [evaluate, evaluateCallee]

/-- Anything but a member is called without a receiver. -/
theorem evaluateCallee_of_ne_member (s : Settings) {n : Node} (hn : ∀ m, n ≠ .member m) :
    evaluateCallee s n = (do
      let callee ← evaluate s n
      return (callee, .undefined)) := by
  cases n with
  | member m => exact absurd rfl (hn m)
  | _ => rfl

/-! ### Relations that evaluation respects -/

/-- A relation between effects under two settings that sequencing keeps and that the primitive
effects are in. The property `P` singles out effects on the world that are related to themselves. -/
structure Eval.Simulation (s t : Settings) (P : ∀ ⦃α : Type⦄, Action α → Prop)
    (M : ∀ ⦃α : Type⦄, Eval α → Eval α → Prop) : Prop where
  host : t.host = s.host
  destructuring : t.destructuring = s.destructuring
  steps : Action.Closed s.host P
  naming : ∀ (v : Value) (name : String), P (Action.nameFunction v name)
  pure : ∀ {α : Type} (a : α), M (pure a : Eval α) (pure a)
  bind : ∀ {α β : Type} {x y : Eval α} {f g : α → Eval β},
    M x y → (∀ a, M (f a) (g a)) → M (x >>= f) (y >>= g)
  look : ∀ {α : Type} {f g : Machine → Eval α},
    (∀ m n, m.LooksLike n → M (f m) (g n)) → M (get >>= f) (get >>= g)
  lift : ∀ {α : Type} {x : Action α}, P x → M (lift x) (lift x)
  fail : ∀ {α : Type} (c : Cause), M (fail c : Eval α) (fail c)
  locate : ∀ {α : Type} {x y : Eval α} (span : Span), M x y → M (locate span x) (locate span y)
  count : M
    (count fun stats => { stats with binaryEvaluations := stats.binaryEvaluations + 1 })
    (count fun stats => { stats with binaryEvaluations := stats.binaryEvaluations + 1 })
  operate : ∀ (op : BinaryOp) (l r : Value), M (operate s op l r) (operate t op l r)
  checkReserved : ∀ name : String, M (checkReserved s name) (checkReserved t name)
  writeName : ∀ (scope? : Option ScopeId) (name : String) (v : Value),
    M (writeName s scope? name v) (writeName t scope? name v)
  putProperty : ∀ (base : Value) (key : String) (v : Value),
    M (Eval.lift (putProperty s.strict base key v)) (Eval.lift (putProperty t.strict base key v))
  putThrough : ∀ (r : Reference) (v : Value),
    M (withReference r fun id => putValue s id v) (withReference r fun id => putValue t id v)
  assignThrough : ∀ (r : Reference) (op : AssignOp) {x y : Eval Value}, M x y →
    M (withReference r (assignThrough s op x)) (withReference r (assignThrough t op y))

namespace Eval.Simulation

variable {s t : Settings} {P : ∀ ⦃α : Type⦄, Action α → Prop}
  {M : ∀ ⦃α : Type⦄, Eval α → Eval α → Prop}

/-- An evaluation for the value that there may be. -/
theorem forM (h : Simulation s t P M) {α : Type} (a? : Option α) {f g : α → Eval Unit}
    (hfg : ∀ a, M (f a) (g a)) : M (a?.forM f) (a?.forM g) := by
  cases a? with
  | none => exact h.pure ()
  | some a => exact hfg a

/-! ### Assignments to names -/

/-- The two runs make the same reference to a name. -/
theorem nameReference (h : Simulation s t P M) (name : String) :
    M (nameReference name) (nameReference name) := by
  refine h.look fun m n hmn => ?_
  rw [hmn.env]
  split
  · exact h.pure _
  · exact h.pure _

/-- The two runs assign to a name alike if they evaluate the value alike. -/
theorem assignName (h : Simulation s t P M) (name : String) (isFunction : Bool) {x y : Eval Value}
    (hxy : M x y) : M (assignName s name isFunction x) (assignName t name isFunction y) := by
  refine h.bind (h.checkReserved name) fun _ => h.look fun m n hmn => ?_
  rw [hmn.env]
  refine h.bind hxy fun v => ?_
  cases isFunction with
  | true =>
    exact h.bind (h.lift (h.naming _ _)) fun _ => h.bind (h.writeName _ _ _) fun _ => h.pure _
  | false => exact h.bind (h.writeName _ _ _) fun _ => h.pure _

/-- The two runs update a name alike if they evaluate the operand alike. -/
theorem assignNameThrough (h : Simulation s t P M) (op : AssignOp) (name : String)
    {x y : Eval Value} (hxy : M x y) (span : Span) :
    M (assignNameThrough s op name x span) (assignNameThrough t op name y span) :=
  h.bind (h.checkReserved name) fun _ => h.bind (h.nameReference name) fun _ =>
    h.locate span (h.assignThrough _ op hxy)

/-- The two runs assign to an element of a pattern alike. -/
theorem assignElement (h : Simulation s t P M) (name : String) (v : Value) :
    M (assignElement s name v) (assignElement t name v) :=
  h.bind (h.checkReserved name) fun _ => h.bind (h.nameReference name) fun _ =>
    h.putThrough _ v

/-- What is called, when it is no member. -/
theorem callee_of_ne_member (h : Simulation s t P M) {c : Node.Combine} (hc : c.IsFolding)
    {n : Node} (hn : ∀ m, n ≠ .member m)
    (hM : M (ScriptOps.evaluate s (n.rebuild c)) (ScriptOps.evaluate t n)) :
    M (evaluateCallee s (n.rebuild c)) (evaluateCallee t n) := by
  rw [evaluateCallee_of_ne_member s (Node.rebuild_ne_member hc hn),
    evaluateCallee_of_ne_member t hn]
  exact h.bind hM fun _ => h.pure _

/-! ### Trees -/

/-- What a way to put operators together must keep for the rebuilt tree to be related to the tree.
-/
structure Folds (s t : Settings) (M : ∀ ⦃α : Type⦄, Eval α → Eval α → Prop)
    (c : Node.Combine) : Prop where
  isFolding : c.IsFolding
  binary : ∀ (op : BinaryOp) {l l' r r' : Node} (span : Span),
    M (evaluate s l) (evaluate t l') → M (evaluate s r) (evaluate t r') →
    M (evaluate s (c op l r span)) (evaluate t (.binary op l' r' span))
  handed : s.destructuring ≠ .elementwise → ∀ (p : Pattern) (v : Value),
    M (Eval.lift (Action.observe (.handed (p.rebuild c) v)))
      (Eval.lift (Action.observe (.handed p v)))

mutual

/-- The rebuilt tree under one setting is related to the tree under the other. -/
theorem evaluate {c : Node.Combine} (h : Simulation s t P M) (hc : Folds s t M c) :
    (n : Node) → M (evaluate s (n.rebuild c)) (evaluate t n)
  | .constant v => by
    rw [Node.rebuild, ScriptOps.evaluate, ScriptOps.evaluate]
    exact h.pure v
  | .identifier name span => by
    rw [Node.rebuild, ScriptOps.evaluate, ScriptOps.evaluate]
    refine h.look fun m n hmn => ?_
    rw [hmn.env]
    split
    · exact h.pure _
    · exact h.locate span (h.fail _)
  | .member m => by
    rw [Node.rebuild, ScriptOps.evaluate, ScriptOps.evaluate, Member.span_rebuild]
    exact h.bind (evaluateParts h hc m) fun _ => h.locate _ (h.lift (h.steps.getProperty _ _))
  | .call callee args span => by
    rw [Node.rebuild, evaluate_call, evaluate_call, h.host]
    refine h.bind ?_ fun _ => h.bind (evaluateAll h hc args) fun _ =>
      h.locate span (h.lift (h.steps.callValue _ _ _))
    cases callee with
    | member m =>
      rw [Node.rebuild, evaluateCallee, evaluateCallee, Member.span_rebuild]
      exact h.bind (evaluateParts h hc m) fun _ =>
        h.bind (h.locate _ (h.lift (h.steps.getProperty _ _))) fun _ => h.pure _
    | _ => exact h.callee_of_ne_member hc.isFolding (by simp) (evaluate h hc _)
  | .function name? kind => by
    rw [Node.rebuild, ScriptOps.evaluate, ScriptOps.evaluate]
    exact h.bind (h.lift (h.steps.createFunction _ _)) fun _ => h.pure _
  | .array elements => by
    rw [Node.rebuild, ScriptOps.evaluate, ScriptOps.evaluate]
    exact h.bind (evaluateAll h hc elements) fun _ =>
      h.bind (h.lift (h.steps.create _)) fun _ => h.pure _
  | .object entries => by
    rw [Node.rebuild, ScriptOps.evaluate, ScriptOps.evaluate]
    exact h.bind (h.lift (h.steps.create _)) fun id =>
      h.bind (evaluateEntries h hc id entries) fun _ => h.pure _
  | .binary op left right span => by
    rw [Node.rebuild]
    exact hc.binary op span (evaluate h hc left) (evaluate h hc right)
  | .assign op (.identifier name) value span => by
    have hvalue := evaluate h hc value
    rw [Node.rebuild, Target.rebuild, ScriptOps.evaluate, ScriptOps.evaluate,
      Node.isAnonymousFunction_rebuild hc.isFolding]
    split
    · exact h.locate span (h.assignName _ _ hvalue)
    · exact h.assignNameThrough op name hvalue span
  | .assign op (.member m) value span => by
    rw [Node.rebuild, Target.rebuild, ScriptOps.evaluate, ScriptOps.evaluate]
    exact h.bind (evaluateParts h hc m) fun _ =>
      h.locate span (h.assignThrough _ op (evaluate h hc value))
  | .assign op (.pattern p) value span => by
    rw [Node.rebuild, Target.rebuild, ScriptOps.evaluate, ScriptOps.evaluate]
    exact h.bind (evaluate h hc value) fun v =>
      h.bind (assignPattern h hc p v) fun _ => h.pure _
  | .assign op (.invalid n) value span => by
    rw [Node.rebuild, Target.rebuild, ScriptOps.evaluate, ScriptOps.evaluate]
    exact h.bind (evaluate h hc n) fun _ => h.locate span (h.fail _)

/-- Lists of trees, from left to right. -/
theorem evaluateAll {c : Node.Combine} (h : Simulation s t P M) (hc : Folds s t M c) :
    (ns : List Node) → M (evaluateAll s (Node.rebuildAll c ns)) (evaluateAll t ns)
  | [] => by
    rw [Node.rebuildAll, ScriptOps.evaluateAll, ScriptOps.evaluateAll]
    exact h.pure _
  | n :: rest => by
    rw [Node.rebuildAll, ScriptOps.evaluateAll, ScriptOps.evaluateAll]
    exact h.bind (evaluate h hc n) fun _ => h.bind (evaluateAll h hc rest) fun _ => h.pure _

/-- The entries of an object literal. -/
theorem evaluateEntries {c : Node.Combine} (h : Simulation s t P M) (hc : Folds s t M c)
    (id : ObjectId) : (entries : List (String × Node)) →
    M (evaluateEntries s id (Node.rebuildEntries c entries)) (evaluateEntries t id entries)
  | [] => by
    rw [Node.rebuildEntries, ScriptOps.evaluateEntries, ScriptOps.evaluateEntries]
    exact h.pure _
  | (key, n) :: rest => by
    rw [Node.rebuildEntries, ScriptOps.evaluateEntries, ScriptOps.evaluateEntries]
    exact h.bind (evaluate h hc n) fun _ => h.bind (h.lift (h.steps.assign _ _ _)) fun _ =>
      evaluateEntries h hc id rest

/-- The object and the key of a member. -/
theorem evaluateParts {c : Node.Combine} (h : Simulation s t P M) (hc : Folds s t M c) :
    (m : Member) → M (evaluateParts s (m.rebuild c)) (evaluateParts t m)
  | .mk object (.named name) span => by
    rw [Member.rebuild, Key.rebuild, ScriptOps.evaluateParts, ScriptOps.evaluateParts]
    exact h.bind (evaluate h hc object) fun _ => h.pure _
  | .mk object (.computed key) span => by
    rw [Member.rebuild, Key.rebuild, ScriptOps.evaluateParts, ScriptOps.evaluateParts, h.host]
    exact h.bind (evaluate h hc object) fun _ => h.bind (evaluate h hc key) fun _ =>
      h.bind (h.locate span (h.lift (h.steps.computedKey _ _))) fun _ => h.pure _

/-- The targets that are elements of patterns. -/
theorem assignTarget {c : Node.Combine} (h : Simulation s t P M) (hc : Folds s t M c)
    (v : Value) : (target : Target) →
    M (assignTarget s v (target.rebuild c)) (assignTarget t v target)
  | .identifier name => by
    rw [Target.rebuild, ScriptOps.assignTarget, ScriptOps.assignTarget]
    exact h.assignElement name v
  | .member m => by
    rw [Target.rebuild, ScriptOps.assignTarget, ScriptOps.assignTarget, Member.span_rebuild]
    exact h.bind (evaluateParts h hc m) fun _ => h.locate _ (h.putProperty _ _ _)
  | .pattern p => by
    rw [Target.rebuild, ScriptOps.assignTarget, ScriptOps.assignTarget]
    exact assignPattern h hc p v
  | .invalid n => by
    rw [Target.rebuild, ScriptOps.assignTarget, ScriptOps.assignTarget]
    exact h.bind (evaluate h hc n) fun _ => h.fail _

/-- Patterns, in each way of taking a value apart. -/
theorem assignPattern {c : Node.Combine} (h : Simulation s t P M) (hc : Folds s t M c) :
    (p : Pattern) → (v : Value) → M (assignPattern s (p.rebuild c) v) (assignPattern t p v)
  | .array targets, v => by
    have hhanded := hc.handed (v := v) (p := .array targets)
    rw [Pattern.rebuild] at hhanded ⊢
    rw [ScriptOps.assignPattern, ScriptOps.assignPattern, h.destructuring]
    cases hs : s.destructuring with
    | elementwise =>
      exact h.bind (h.lift (h.steps.elementSource v)) fun source =>
        assignElements h hc source 0 targets
    | shared share =>
      exact h.bind (hhanded (by simp [hs])) fun _ => assignShares h hc share v 0 targets
  | .object entries, v => by
    have hhanded := hc.handed (v := v) (p := .object entries)
    rw [Pattern.rebuild] at hhanded ⊢
    rw [ScriptOps.assignPattern, ScriptOps.assignPattern, h.destructuring,
      Target.keys_rebuildEntries]
    cases hs : s.destructuring with
    | elementwise =>
      exact h.bind (h.lift (h.steps.checkRecord _ v)) fun _ => assignProperties h hc v entries
    | shared share =>
      exact h.bind (hhanded (by simp [hs])) fun _ => assignShareEntries h hc share v entries

/-- The elements of a source. -/
theorem assignElements {c : Node.Combine} (h : Simulation s t P M) (hc : Folds s t M c)
    (source : ElementSource) (index : Nat) : (targets : List (Option Target)) →
    M (assignElements s source index (Target.rebuildSlots c targets))
      (assignElements t source index targets)
  | [] => by
    rw [Target.rebuildSlots, ScriptOps.assignElements, ScriptOps.assignElements]
    exact h.pure _
  | none :: rest => by
    rw [Target.rebuildSlots, ScriptOps.assignElements, ScriptOps.assignElements]
    exact assignElements h hc source (index + 1) rest
  | some target :: rest => by
    rw [Target.rebuildSlots, ScriptOps.assignElements, ScriptOps.assignElements]
    refine h.look fun m n hmn => ?_
    rw [hmn.heap]
    exact h.bind (assignTarget h hc _ target) fun _ =>
      assignElements h hc source (index + 1) rest

/-- The properties of a source. -/
theorem assignProperties {c : Node.Combine} (h : Simulation s t P M) (hc : Folds s t M c)
    (source : Value) : (entries : List (String × Target)) →
    M (assignProperties s source (Target.rebuildEntries c entries))
      (assignProperties t source entries)
  | [] => by
    rw [Target.rebuildEntries, ScriptOps.assignProperties, ScriptOps.assignProperties]
    exact h.pure _
  | (key, target) :: rest => by
    rw [Target.rebuildEntries, ScriptOps.assignProperties, ScriptOps.assignProperties]
    exact h.bind (h.lift (h.steps.getProperty _ _)) fun v =>
      h.bind (assignTarget h hc v target) fun _ => assignProperties h hc source rest

/-- The parts that a collaborator gives by position. -/
theorem assignShares {c : Node.Combine} (h : Simulation s t P M) (hc : Folds s t M c)
    (share : Share) (v : Value) (index : Nat) : (targets : List (Option Target)) →
    M (assignShares s share v index (Target.rebuildSlots c targets))
      (assignShares t share v index targets)
  | [] => by
    rw [Target.rebuildSlots, ScriptOps.assignShares, ScriptOps.assignShares]
    exact h.pure _
  | none :: rest => by
    rw [Target.rebuildSlots, ScriptOps.assignShares, ScriptOps.assignShares]
    exact assignShares h hc share v (index + 1) rest
  | some target :: rest => by
    rw [Target.rebuildSlots, ScriptOps.assignShares, ScriptOps.assignShares]
    refine h.look fun m n hmn => ?_
    rw [hmn.heap]
    exact h.bind (h.forM _ fun part => assignTarget h hc part target) fun _ =>
      assignShares h hc share v (index + 1) rest

/-- The parts that a collaborator gives by key. -/
theorem assignShareEntries {c : Node.Combine} (h : Simulation s t P M) (hc : Folds s t M c)
    (share : Share) (v : Value) : (entries : List (String × Target)) →
    M (assignShareEntries s share v (Target.rebuildEntries c entries))
      (assignShareEntries t share v entries)
  | [] => by
    rw [Target.rebuildEntries, ScriptOps.assignShareEntries, ScriptOps.assignShareEntries]
    exact h.pure _
  | (key, target) :: rest => by
    rw [Target.rebuildEntries, ScriptOps.assignShareEntries, ScriptOps.assignShareEntries]
    refine h.look fun m n hmn => ?_
    rw [hmn.heap]
    exact h.bind (h.forM _ fun part => assignTarget h hc part target) fun _ =>
      assignShareEntries h hc share v rest

end

/-- Every tree is related to itself, as far as patterns that are handed over are. -/
theorem evaluate_self (h : Simulation s t P M)
    (hhanded : s.destructuring ≠ .elementwise →
      ∀ (p : Pattern) (v : Value), P (Action.observe (.handed p v))) (n : Node) :
    M (ScriptOps.evaluate s n) (ScriptOps.evaluate t n) := by
  have hc : Folds s t M .binary :=
    { isFolding := fun _ _ _ _ => .inr rfl
      binary := fun op l l' r r' span hl hr => by
        rw [ScriptOps.evaluate, ScriptOps.evaluate]
        exact h.bind hl fun _ => h.bind hr fun _ => h.bind h.count fun _ =>
          h.locate span (h.operate _ _ _)
      handed := fun hs p v => by
        rw [p.rebuild_binary]
        exact h.lift (hhanded hs p v) }
  have hn := h.evaluate hc n
  rwa [n.rebuild_binary] at hn

end Eval.Simulation

/-! ### Simulations from relations between machines -/

/-- Relations between machines that may say which references the pools hold: with one more reference
in each pool some relation of the family holds, in which the two slots are known to hold the same.
-/
def Machine.KeepsPools {ι : Type} (R : ι → Machine → Machine → Prop) : Prop :=
  ∀ (i : ι) (r : Reference) ⦃α : Type⦄ ⦃x y : RefId → Eval α⦄,
    (∀ j id id', Matches Eq Eq (R j) (pooled id) (pooled id') →
      Matches Eq Eq (R j) (x id) (y id')) →
    Matches Eq Eq (R i) (withReference r x) (withReference r y)

/-- Machines with the same pool put a reference into the same slot, so a relation between them keeps
pools when putting references in and giving slots back keep it. -/
theorem Machine.keepsPools_of_same {R : Machine → Machine → Prop}
    (hsame : ∀ ⦃m n : Machine⦄, R m n → m.references = n.references)
    (hacquire : ∀ ⦃m n : Machine⦄ (r : Reference), R m n → R (m.acquire r).2 (n.acquire r).2)
    (hrelease : ∀ ⦃m n : Machine⦄ (id : RefId), R m n → R (m.release id) (n.release id)) :
    KeepsPools fun _ : Unit => R := by
  intro _ r α x y hxy m n hmn
  have hpooled (id : RefId) : Matches Eq Eq R (pooled id) (pooled id) := by
    intro m n hmn
    rw [pooled_eq, pooled_eq, hsame hmn]
    split
    · exact .ok rfl hmn
    · exact .error rfl hmn
  have hid : (m.acquire r).1 = (n.acquire r).1 := by
    rw [acquire, acquire, hsame hmn]
  have hbody := hxy () (m.acquire r).1 (n.acquire r).1 (hid ▸ hpooled _) (hacquire r hmn)
  refine Agree.withReference hbody fun m' n' h => ?_
  rw [← hid]
  exact hrelease _ h

/-- A family of coupled relations that operators keep makes a simulation: effects that match in each
of them. -/
theorem Machine.Coupled.simulation {s : Settings} {S : World → World → Prop} {ι : Type}
    {R : ι → Machine → Machine → Prop} (hS : World.Steady s.host S) (hR : ∀ i, Coupled S (R i))
    (hoperate : ∀ (i : ι) (op : BinaryOp) (l r : Value),
      Matches Eq Eq (R i) (Eval.operate s op l r) (Eval.operate s op l r))
    (hpools : KeepsPools R) :
    Eval.Simulation s s (Action.Respects S) fun _ x y => ∀ i, Matches Eq Eq (R i) x y where
  host := rfl
  destructuring := rfl
  steps := hS.closed
  naming := hS.nameFunction
  pure _ _ := Matches.pure rfl
  bind hx hf i := (hx i).bind fun a _ hab => hab ▸ hf a i
  look hfg i := (hR i).look hS fun m n hmn => hfg m n hmn i
  lift hx i := (hR i).lift hx
  fail _ _ := Matches.throw rfl
  locate span h i := (h i).locate span
  count i := Matches.modify fun _ _ hmn => (hR i).countBinary hmn
  operate op l r i := hoperate i op l r
  checkReserved name _ := Matches.checkReserved s name
  writeName scope? name v i := (hR i).writeName s scope? name v
  putProperty base key v i := (hR i).lift (hS.closed.putProperty s.strict base key v)
  putThrough r v i := hpools i r fun j _ _ hpooled => (hR j).putValue hS s hpooled v
  assignThrough r op _ _ hxy i := hpools i r fun j _ _ hpooled =>
    (hR j).assignThrough hS (hoperate j) op hpooled (hxy j)

/-- Steady relations are kept by operators. -/
theorem Machine.Steady.simulation {s : Settings} {S : World → World → Prop} {ι : Type}
    {R : ι → Machine → Machine → Prop} (hS : World.Steady s.host S) (hR : ∀ i, Steady S (R i))
    (hpools : KeepsPools R) :
    Eval.Simulation s s (Action.Respects S) fun _ x y => ∀ i, Matches Eq Eq (R i) x y :=
  Coupled.simulation hS (fun i => (hR i).toCoupled) (fun i => (hR i).operate hS) hpools

end ScriptOps
