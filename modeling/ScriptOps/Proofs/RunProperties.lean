import ScriptOps.Proofs.FailedAssignment
import ScriptOps.Proofs.Simulation

/-!
# Properties of whole runs

`leaves` is the state in which an effect ends, be it with a value or with an error. A property of
evaluations that speaks of the world alone holds of every tree once the steps on the world have it
and sequencing keeps it: what an evaluation does besides, to the bindings, the pool and the
counters, leaves the world alone. `Eval.Pervasive` says this, and the induction over trees is that
of `Eval.Simulation`.
-/

namespace ScriptOps

open Eval

/-! ### The state at the end -/

/-- The state that an effect leaves, with a value or with an error. -/
def leaves {σ α : Type} (x : EStateM Error σ α) (s : σ) : σ :=
  match x s with
  | .ok _ s' | .error _ s' => s'

/-- The machine after an action is the one it leaves on either exit. -/
theorem Eval.after_eq_leaves {α : Type} (x : Eval α) (m : Machine) : x.after m = leaves x m := by
  unfold after leaves
  cases x m with
  | ok a m' => rfl
  | error e m' => rfl

/-- A sequence leaves what its second part leaves, if it comes to that. -/
theorem leaves_bind {σ α β : Type} (x : EStateM Error σ α) (f : α → EStateM Error σ β) (s : σ) :
    leaves (x >>= f) s = match x s with
      | .ok a s' => leaves (f a) s'
      | .error _ s' => s' := by
  cases hrun : x s with
  | ok a s' =>
    rw [leaves, bind_of_ok hrun]
    rfl
  | error e s' => rw [leaves, bind_of_error hrun]

/-- A step on the world leaves the world it would leave by itself. -/
theorem Eval.world_leaves_lift {α : Type} (x : Action α) (m : Machine) :
    (leaves (lift x) m).world = leaves x m.world := by
  unfold leaves lift
  cases x m.world <;> rfl

/-- Placing an error does not change the machine that is left. -/
theorem Eval.leaves_locate {α : Type} (span : Span) (x : Eval α) (m : Machine) :
    leaves (locate span x) m = leaves x m := by
  unfold leaves locate
  cases x m <;> rfl

/-- Holding a reference does not change the world that is left. -/
theorem Eval.world_leaves_withReference {α : Type} (r : Reference) (x : RefId → Eval α)
    (m : Machine) :
    (leaves (withReference r x) m).world = (leaves (x (m.acquire r).1) (m.acquire r).2).world := by
  unfold leaves withReference
  generalize m.acquire r = acquired
  obtain ⟨id, m₁⟩ := acquired
  dsimp only
  cases x id m₁ <;> rfl

/-! ### Evaluations that leave the world alone -/

/-- The evaluation leaves the world alone. -/
def Eval.IsWorldless {α : Type} (x : Eval α) : Prop :=
  ∀ m, (leaves x m).world = m.world

/-- Storing a binding leaves the world. -/
theorem Eval.IsWorldless.commit (s : Settings) (name : String)
    (written : Except BindingError Environment) : IsWorldless (commit s name written) := by
  intro m
  cases written with
  | ok env => rfl
  | error cause =>
    cases cause with
    | immutable | undeclared => rfl
    | readOnly =>
      unfold Eval.commit
      cases s.strict <;> rfl

/-- Reading a reference from the pool leaves the world. -/
theorem Eval.IsWorldless.pooled (id : RefId) : IsWorldless (pooled id) := by
  intro m
  rw [leaves, pooled_eq]
  cases m.references.get? id with
  | some r => rfl
  | none => rfl

/-- Looking up an overload leaves the world, as the cache is the machine's. -/
theorem Eval.IsWorldless.lookupMethod (op : BinaryOp) (l r : Value) :
    IsWorldless (lookupMethod op l r) := by
  intro m
  obtain ⟨world, resolver?, env, references, stats⟩ := m
  cases resolver? with
  | some resolver => rfl
  | none => rfl

/-- The check of reserved names leaves the world. -/
theorem Eval.IsWorldless.checkReserved (s : Settings) (name : String) :
    IsWorldless (checkReserved s name) := by
  intro m
  unfold Eval.checkReserved
  split <;> rfl

/-! ### Properties of all evaluations -/

/-- A property of evaluations that those have that leave the world alone, and that sequencing,
places and references keep. Effects on the world have it if they have the property `P`. -/
structure Eval.Pervasive (s : Settings) (P : ∀ ⦃α : Type⦄, Action α → Prop)
    (Q : ∀ ⦃α : Type⦄, Eval α → Prop) : Prop where
  steps : Action.Closed s.host P
  naming : ∀ (v : Value) (name : String), P (Action.nameFunction v name)
  handed : ∀ (p : Pattern) (v : Value), P (Action.observe (.handed p v))
  worldless : ∀ {α : Type} {x : Eval α}, x.IsWorldless → Q x
  bind : ∀ {α β : Type} {x : Eval α} {f : α → Eval β}, Q x → (∀ a, Q (f a)) → Q (x >>= f)
  lift : ∀ {α : Type} {x : Action α}, P x → Q (lift x)
  locate : ∀ {α : Type} {x : Eval α} (span : Span), Q x → Q (locate span x)
  withReference : ∀ {α : Type} (r : Reference) {x : RefId → Eval α}, (∀ id, Q (x id)) →
    Q (withReference r x)

namespace Eval.Pervasive

variable {s : Settings} {P : ∀ ⦃α : Type⦄, Action α → Prop} {Q : ∀ ⦃α : Type⦄, Eval α → Prop}

/-- A property that all steps have is closed under the ways to combine them. -/
theorem closed (h : Pervasive s P Q) : Eval.Closed s P Q where
  steps := h.steps.toLiteralFree
  pure _ := h.worldless fun _ => rfl
  bind := h.bind
  look hf := h.bind (h.worldless fun _ => rfl) hf
  fail _ := h.worldless fun _ => rfl
  lift := h.lift
  lookupMethod op l r := h.worldless (.lookupMethod op l r)
  countDispatch := h.worldless fun _ => rfl
  countCompound := h.worldless fun _ => rfl

/-- A property that all steps have holds of a write to a name. -/
theorem writeName (h : Pervasive s P Q) (scope? : Option ScopeId) (name : String) (v : Value) :
    Q (writeName s scope? name v) := by
  refine h.closed.look fun m => ?_
  cases scope? with
  | some id => exact h.worldless (.commit s name _)
  | none =>
    dsimp only
    split
    · exact h.closed.fail _
    · exact h.worldless (.commit s name _)

/-- A property that all steps have holds of a write to any reference. -/
theorem write (h : Pervasive s P Q) (v : Value) (r : Reference) : Q (r.write s v) := by
  cases r with
  | binding name scope => exact h.writeName (some scope) name v
  | unresolvable name => exact h.writeName none name v
  | property base key => exact h.lift (h.steps.putProperty s.strict base key v)

/-- A property that all steps have holds of a read through a handle. -/
theorem getValue (h : Pervasive s P Q) (id : RefId) : Q (getValue id) := by
  rw [getValue_eq]
  exact h.bind (h.worldless (.pooled id)) h.closed.read

/-- A property that all steps have holds of a write through a handle. -/
theorem putValue (h : Pervasive s P Q) (id : RefId) (v : Value) : Q (putValue s id v) := by
  rw [putValue_eq]
  exact h.bind (h.worldless (.pooled id)) (h.write v)

/-- As a relation, the property relates an evaluation to itself. -/
theorem simulation (h : Pervasive s P Q) : Eval.Simulation s s P fun _ x y => x = y ∧ Q x where
  host := rfl
  destructuring := rfl
  steps := h.steps
  naming := h.naming
  pure a := ⟨rfl, h.closed.pure a⟩
  bind hx hf := ⟨by rw [hx.1, funext fun a => (hf a).1], h.bind hx.2 fun a => (hf a).2⟩
  look {α f g} hfg := by
    have hsame (m : Machine) := hfg m m ⟨rfl, rfl⟩
    refine ⟨?_, h.closed.look fun m => (hsame m).2⟩
    rw [funext fun m => (hsame m).1]
  lift hx := ⟨rfl, h.lift hx⟩
  fail c := ⟨rfl, h.closed.fail c⟩
  locate span hx := ⟨by rw [hx.1], h.locate span hx.2⟩
  count := ⟨rfl, h.worldless fun _ => rfl⟩
  operate op l r := ⟨rfl, h.closed.operate op l r⟩
  checkReserved name := ⟨rfl, h.worldless (.checkReserved s name)⟩
  writeName scope? name v := ⟨rfl, h.writeName scope? name v⟩
  putProperty base key v := ⟨rfl, h.lift (h.steps.putProperty s.strict base key v)⟩
  putThrough r v := ⟨rfl, h.withReference r fun id => h.putValue id v⟩
  assignThrough r op x y hxy := by
    obtain ⟨rfl, hx⟩ := hxy
    refine ⟨rfl, h.withReference r fun id => ?_⟩
    rw [assignThrough_eq_assignBy]
    exact h.closed.assignBy hx (h.getValue id) (h.putValue id)

/-- So every tree has it. -/
theorem evaluate (h : Pervasive s P Q) (n : Node) : Q (evaluate s n) :=
  (h.simulation.evaluate_self (fun _ => h.handed) n).2

end Eval.Pervasive

end ScriptOps
