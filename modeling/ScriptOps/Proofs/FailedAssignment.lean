import ScriptOps.Evaluation
import ScriptOps.Proofs.Agreement

/-!
# Assignments that fail write nothing

A compound or logical assignment is split into what it does before it writes, `Target.attempt`, and
the write. `Target.attempt` evaluates the parts of the target, reads the target, evaluates the
right-hand side and applies the operator, in this order; it contains no write of its own. A write
that is refused leaves the machine as it was, whatever storage it goes to. So a failed assignment
leaves the machine that its parts left.
-/

namespace ScriptOps

open Eval

/-- The machine that an evaluation leaves, with a value or with an error. -/
def Eval.after {α : Type} (x : Eval α) (m : Machine) : Machine :=
  match x m with
  | .ok _ m' | .error _ m' => m'

/-! ### Writes that are refused -/

/-- A property that is refused, or has no object, leaves the world as it was. -/
theorem putProperty_error {strict : Bool} {base : Value} {key : String} {v : Value} {w w' : World}
    {e : Error} (h : putProperty strict base key v w = .error e w') : w' = w := by
  cases base with
  | primitive p =>
    cases p with
    | undefined | null =>
      cases h
      rfl
    | bool | int | number | str =>
      cases strict with
      | true =>
        cases h
        rfl
      | false => nomatch h
  | object id =>
    rw [putProperty] at h
    have hassign := Action.assign_eq id key v w
    cases hset : w.heap.set? id key v with
    | some heap =>
      rw [hset] at hassign
      rw [bind_of_ok hassign] at h
      cases strict <;> nomatch h
    | none =>
      rw [hset] at hassign
      rw [bind_of_ok hassign] at h
      cases strict with
      | true =>
        cases h
        rfl
      | false => nomatch h

/-- An effect on the world that leaves it as it was when it fails leaves the machine so. -/
theorem Eval.lift_error {α : Type} {x : Action α}
    (hx : ∀ w w' e, x w = .error e w' → w' = w) {m m' : Machine} {e : Error}
    (h : lift x m = .error e m') : m' = m := by
  unfold lift at h
  cases hworld : x m.world with
  | ok a world =>
    rw [hworld] at h
    nomatch h
  | error cause world =>
    rw [hworld, hx _ _ _ hworld] at h
    cases h
    rfl

/-- A binding that is refused leaves the machine as it was. -/
theorem Eval.commit_error {s : Settings} {name : String}
    {written : Except BindingError Environment} {m m' : Machine} {e : Error}
    (h : commit s name written m = .error e m') : m' = m := by
  cases written with
  | ok env => nomatch h
  | error cause =>
    cases cause with
    | immutable | undeclared =>
      cases h
      rfl
    | readOnly =>
      change (if s.strict then fail (.readOnlyBinding name) else return () : Eval Unit) m = _ at h
      split at h
      · cases h
        rfl
      · nomatch h

/-- A write that fails leaves the machine as it was. -/
theorem Eval.writeName_error {s : Settings} {scope? : Option ScopeId} {name : String} {v : Value}
    {m m' : Machine} {e : Error} (h : writeName s scope? name v m = .error e m') : m' = m := by
  cases scope? with
  | some id => exact commit_error h
  | none =>
    change (if s.strict then fail (.undeclared name)
      else commit s name (m.env.defineOrAssign name v) : Eval Unit) m = _ at h
    split at h
    · cases h
      rfl
    · exact commit_error h

/-- A write that is refused leaves the machine as it was. -/
theorem Eval.putValue_error {s : Settings} {id : RefId} {v : Value} {m m' : Machine} {e : Error}
    (h : putValue s id v m = .error e m') : m' = m := by
  rw [putValue, pooled_bind] at h
  generalize m.references.get? id = r? at h
  cases r? with
  | none =>
    cases h
    rfl
  | some r =>
    cases r with
    | binding name scope => exact writeName_error h
    | unresolvable name => exact writeName_error h
    | property base key => exact lift_error (fun _ _ _ hput => putProperty_error hput) h

/-! ### What an assignment does before it writes -/

/-- Reads the target, evaluates the right-hand side and applies the operator. The flag tells whether
the result is to be written; a logical assignment may keep what its target has. -/
def Eval.attempt (s : Settings) (op : AssignOp) (value : Eval Value) (id : RefId) :
    Eval (Value × Bool) := do
  let current ← getValue id
  match op.binaryOp? with
  | some binary =>
    let v ← value
    count fun stats => { stats with compoundAssignments := stats.compoundAssignments + 1 }
    return (← operate s binary current v, true)
  | none => if keeps op current then return (current, false) else return (← value, true)

/-- Evaluates the parts of a target and then all that an assignment to it does but the write. -/
def Target.attempt (s : Settings) (op : AssignOp) (value : Node) : Target → Eval (Value × Bool)
  | .identifier name => do
    checkReserved s name
    let r ← nameReference name
    withReference r (Eval.attempt s op (evaluate s value))
  | .member m => do
    let (base, key) ← evaluateParts s m
    withReference (.property base key) (Eval.attempt s op (evaluate s value))
  | .pattern _ | .invalid _ => fail .invalidTarget

/-- Whether a target is a name or a member. -/
def Target.isReference : Target → Bool
  | .identifier _ | .member _ => true
  | .pattern _ | .invalid _ => false

/-- An assignment is what it does before it writes, and then the write. -/
theorem Eval.assignThrough_eq (s : Settings) {op : AssignOp} (hop : op ≠ .assign)
    (value : Eval Value) (id : RefId) :
    assignThrough s op value id = (do
      let (v, written) ← Eval.attempt s op value id
      if written then putValue s id v
      return v) := by
  unfold assignThrough Eval.attempt
  cases hbinary : op.binaryOp? with
  | some binary => simp [compoundThrough]
  | none =>
    simp only [if_neg hop, logicalThrough, writeThrough, bind_assoc]
    congr 1
    funext current
    split <;> simp

/-! ### Where a failure comes from -/

/-- Whether an evaluation fails only where another one fails for the same cause, or where the other
one comes to a value that is to be written. Both leave the same machine then. -/
def Eval.FailsWithin (x : Eval Value) (y : Eval (Value × Bool)) : Prop :=
  ∀ ⦃m m' e⦄, x m = .error e m' →
    (∃ f, y m = .error f m' ∧ e.cause = f.cause) ∨ ∃ v, y m = .ok (v, true) m'

namespace Eval.FailsWithin

/-- A failure in a part that both begin with is the same. -/
theorem bind {α : Type} {x : Eval α} {f : α → Eval Value} {g : α → Eval (Value × Bool)}
    (h : ∀ a, FailsWithin (f a) (g a)) : FailsWithin (x >>= f) (x >>= g) := by
  intro m m' e hfail
  cases hx : x m with
  | ok a m₁ =>
    rw [bind_of_ok hx] at hfail ⊢
    exact h a hfail
  | error e₁ m₁ =>
    rw [bind_of_error hx] at hfail ⊢
    cases hfail
    exact .inl ⟨_, rfl, rfl⟩

/-- The place that errors get makes no difference. -/
theorem locate {x : Eval Value} {y : Eval (Value × Bool)} (span : Span) (h : FailsWithin x y) :
    FailsWithin (locate span x) y := by
  intro m m' e hfail
  unfold Eval.locate at hfail
  cases hx : x m with
  | ok v m₁ =>
    rw [hx] at hfail
    nomatch hfail
  | error e₁ m₁ =>
    rw [hx] at hfail
    cases hfail
    rw [Error.cause_locate]
    exact h hx

/-- The slot is given back after both. -/
theorem withReference (r : Reference) {x : RefId → Eval Value} {y : RefId → Eval (Value × Bool)}
    (h : ∀ id, FailsWithin (x id) (y id)) :
    FailsWithin (withReference r x) (withReference r y) := by
  intro m m' e hfail
  unfold Eval.withReference at hfail ⊢
  generalize m.acquire r = acquired at hfail ⊢
  obtain ⟨id, m₁⟩ := acquired
  dsimp only at hfail ⊢
  cases hx : x id m₁ with
  | ok v m₂ =>
    rw [hx] at hfail
    nomatch hfail
  | error e₁ m₂ =>
    rw [hx] at hfail
    cases hfail
    rcases h id hx with ⟨f, hf, hcause⟩ | ⟨v, hv⟩
    · exact .inl ⟨f, by rw [hf], hcause⟩
    · exact .inr ⟨v, by rw [hv]⟩

/-- The write fails only once there is a value to be written, and then it changes nothing. -/
theorem assignThrough (s : Settings) {op : AssignOp} (hop : op ≠ .assign) (value : Eval Value)
    (id : RefId) : FailsWithin (assignThrough s op value id) (Eval.attempt s op value id) := by
  intro m m' e hfail
  rw [assignThrough_eq s hop] at hfail
  cases hattempt : Eval.attempt s op value id m with
  | error e₁ m₁ =>
    rw [bind_of_error hattempt] at hfail
    cases hfail
    exact .inl ⟨_, rfl, rfl⟩
  | ok result m₁ =>
    obtain ⟨v, written⟩ := result
    rw [bind_of_ok hattempt] at hfail
    cases written with
    | false => nomatch hfail
    | true =>
      -- the value itself is returned, so the failure is the refusal of the write
      dsimp only at hfail
      rw [if_pos rfl] at hfail
      cases hput : putValue s id v m₁ with
      | ok _ m₂ =>
        rw [bind_of_ok hput] at hfail
        nomatch hfail
      | error e₂ m₂ =>
        rw [bind_of_error hput] at hfail
        cases hfail
        rw [putValue_error hput]
        exact .inr ⟨v, rfl⟩

end Eval.FailsWithin

/-- A compound or logical assignment to a name or a member fails within what it does before it
writes. -/
theorem Target.failsWithin_attempt (s : Settings) {op : AssignOp} (hop : op ≠ .assign)
    {target : Target} (htarget : target.isReference) (value : Node) (span : Span) :
    FailsWithin (evaluate s (.assign op target value span)) (target.attempt s op value) := by
  cases target with
  | identifier name =>
    rw [evaluate, if_neg hop]
    exact .bind fun _ => .bind fun r => .locate span <| .withReference r <|
      .assignThrough s hop (evaluate s value)
  | member m =>
    rw [evaluate]
    exact .bind fun _ => .locate span <| .withReference _ <|
      .assignThrough s hop (evaluate s value)
  | pattern | invalid => nomatch htarget

/-! ### What a failed assignment leaves -/

/-- The value that a reference has in a machine. -/
def Reference.value? (m : Machine) : Reference → Option Value
  | .binding name scope => (m.env.store.scope scope).getOwn? name
  | .unresolvable name => m.env.lookup? name
  | .property (.object id) key => some (m.world.heap.get id key)
  | .property (.primitive _) _ => none

/-- A compound or logical assignment that fails performs no write. It leaves the machine, bindings
and heap included, that the parts of the target, the reading of the target, the right-hand side and
the operator leave, carried out in this order; it fails for the cause for which they do, or they
came to a value and the write was refused. So a reference whose value they leave alone keeps its
value. -/
theorem failed_assignment_writes_nothing {s : Settings} {op : AssignOp} {target : Target}
    {value : Node} {span : Span} {m m' : Machine} {e : Error} (hop : op ≠ .assign)
    (htarget : target.isReference)
    (h : evaluate s (.assign op target value span) m = .error e m') :
    m' = (target.attempt s op value).after m ∧
      ((∃ f, target.attempt s op value m = .error f m' ∧ e.cause = f.cause) ∨
        ∃ v, target.attempt s op value m = .ok (v, true) m') ∧
      ∀ r : Reference,
        r.value? ((target.attempt s op value).after m) = r.value? m → r.value? m' = r.value? m := by
  have hfails := target.failsWithin_attempt s hop htarget value span h
  have hafter : m' = (target.attempt s op value).after m := by
    unfold Eval.after
    rcases hfails with ⟨f, hf, _⟩ | ⟨v, hv⟩
    · rw [hf]
    · rw [hv]
  exact ⟨hafter, hfails, fun r hr => hafter ▸ hr⟩

/-- The operator of `x += "b"` gives a string, but `x` is a constant. -/
theorem failed_assignment_writes_nothing_constant :
    let s : Settings :=
      ⟨⟨fun _ _ => .answer .undefined, fun _ => false, fun _ => none, 0⟩, true, .elementwise⟩
    let m : Machine := .start ⟨.empty, []⟩ none (.define .empty "x" (.str "a") .immutable)
    let m' : Machine := { m with references := ⟨#[none], [0]⟩, stats := ⟨0, 1, 1⟩ }
    let target : Target := .identifier "x"
    let value : Node := .constant (.str "b")
    evaluate s (.assign .add target value ⟨0, 8⟩) m =
        .error ⟨.constantBinding "x", some ⟨0, 8⟩⟩ m' ∧
      m' = (target.attempt s .add value).after m := by
  intro s m m' target value
  have h : evaluate s (.assign .add target value ⟨0, 8⟩) m =
      .error ⟨.constantBinding "x", some ⟨0, 8⟩⟩ m' := rfl
  exact ⟨h, (failed_assignment_writes_nothing (by decide) rfl h).1⟩

end ScriptOps
