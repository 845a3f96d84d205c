import ScriptOps.Proofs.RunProperties

/-!
# What a run does to the heap

A heap changes by five kinds of steps: an object is added, a property is assigned, a prototype is
set, a function gets its name. A relation between heaps that these steps are in, and that goes from
step to step, relates the heap before a run to the heap after it, whatever the tree, the host and
the outcome are.
-/

namespace ScriptOps

/-- A relation between a heap and later ones that every step on the heap is in. -/
structure Heap.Evolution (R : Heap → Heap → Prop) : Prop where
  refl : ∀ h : Heap, R h h
  trans : ∀ {h h₁ h₂ : Heap}, R h h₁ → R h₁ h₂ → R h h₂
  add : ∀ (h : Heap) (o : Object), R h (h.add o).2
  set : ∀ {h h' : Heap} {id : ObjectId} {key : String} {v : Value},
    h.set? id key v = some h' → R h h'
  setPrototype : ∀ {h h' : Heap} {id : ObjectId} {prototype? : Option ObjectId},
    h.setPrototype? id prototype? = some h' → R h h'
  nameFunction : ∀ (h : Heap) (id : ObjectId) (name : String), R h (h.nameFunction id name)

/-- The effect leads from every heap to a related one. -/
def Action.Evolves (R : Heap → Heap → Prop) ⦃α : Type⦄ (x : Action α) : Prop :=
  ∀ w, R w.heap (leaves x w).heap

/-- The evaluation does. -/
def Eval.Evolves (R : Heap → Heap → Prop) ⦃α : Type⦄ (x : Eval α) : Prop :=
  ∀ m, R m.world.heap (leaves x m).world.heap

namespace Heap.Evolution

variable {R : Heap → Heap → Prop}

/-- What leads to related heaps in sequence does so as a whole. -/
theorem sequence (hR : Evolution R) {σ α β : Type} (heap : σ → Heap) {x : EStateM Error σ α}
    {f : α → EStateM Error σ β} {s : σ} (hx : R (heap s) (heap (leaves x s)))
    (hf : ∀ a s', R (heap s') (heap (leaves (f a) s'))) :
    R (heap s) (heap (leaves (x >>= f) s)) := by
  rw [leaves_bind]
  unfold leaves at hx
  cases hrun : x s with
  | ok a s' =>
    rw [hrun] at hx
    exact hR.trans hx (hf a s')
  | error e s' =>
    rw [hrun] at hx
    exact hx

/-! ### Steps on the world -/

/-- The heap evolves through a sequence if it does through the parts. -/
theorem bind (hR : Evolution R) {α β : Type} {x : Action α} {f : α → Action β}
    (hx : Action.Evolves R x) (hf : ∀ a, Action.Evolves R (f a)) : Action.Evolves R (x >>= f) :=
  fun w => hR.sequence World.heap (hx w) hf

/-- It evolves through an assignment. -/
theorem assign (hR : Evolution R) (id : ObjectId) (key : String) (v : Value) :
    Action.Evolves R (Action.assign id key v) := by
  intro w
  rw [leaves, Action.assign_eq]
  cases hset : w.heap.set? id key v with
  | some h => exact hR.set hset
  | none => exact hR.refl _

/-- It evolves through a new prototype. -/
theorem link (hR : Evolution R) (id : ObjectId) (prototype? : Option ObjectId) :
    Action.Evolves R (Action.link id prototype?) := by
  intro w
  rw [leaves, Action.link_eq]
  cases hset : w.heap.setPrototype? id prototype? with
  | some h => exact hR.setPrototype hset
  | none => exact hR.refl _

/-- It evolves through the creation of an object. -/
theorem create (hR : Evolution R) (kind : ObjectKind) : Action.Evolves R (Action.create kind) :=
  fun w => hR.add w.heap _

/-- It evolves through the creation of a function. -/
theorem createFunction (hR : Evolution R) (name : String) (kind : FunctionKind) :
    Action.Evolves R (Action.createFunction name kind) := by
  intro w
  cases kind with
  | arrow => exact hR.add w.heap _
  | function | classLiteral => exact hR.trans (hR.add w.heap _) (hR.add _ _)

/-- It evolves through the naming of a function. -/
theorem nameValue (hR : Evolution R) (v : Value) (name : String) :
    Action.Evolves R (Action.nameFunction v name) := by
  intro w
  cases v with
  | primitive p => exact hR.refl _
  | object id => exact hR.nameFunction w.heap id name

/-- It evolves through every reaction of the host, step by step. -/
theorem run (hR : Evolution R) (r : Reaction) : Action.Evolves R r.run := by
  induction r with
  | answer v => exact fun w => hR.refl _
  | fail e => exact fun w => hR.refl _
  | write id key v next ih =>
    have hobserve (accepted : Bool) : Action.Evolves R (Action.observe (.wrote accepted)) :=
      fun w => hR.refl _
    exact hR.bind (hR.assign id key v) fun accepted =>
      hR.bind (hobserve accepted) fun _ => ih accepted
  | create kind next ih => exact hR.bind (hR.create kind) ih
  | link id prototype? next ih => exact hR.bind (hR.link id prototype?) ih

/-- It evolves through every callback. -/
theorem ask (hR : Evolution R) (host : Host) (c : Callback) : Action.Evolves R (host.ask c) := by
  intro w
  exact hR.run (host.react c w) { w with trace := .invoked c :: w.trace }

/-- So everything that is built from the steps leads to related heaps. -/
theorem closed (hR : Evolution R) (host : Host) : Action.Closed host (Action.Evolves R) where
  pure _ := fun _ => hR.refl _
  bind := hR.bind
  fail _ := fun _ => hR.refl _
  heap := fun _ => hR.refl _
  create := hR.create
  createFunction := hR.createFunction
  assign := hR.assign
  compared _ _ := fun _ => hR.refl _
  ask := hR.ask host

/-! ### Runs -/

/-- So it evolves through the evaluation of every tree. -/
theorem pervasive (hR : Evolution R) (s : Settings) :
    Eval.Pervasive s (Action.Evolves R) (Eval.Evolves R) where
  steps := hR.closed s.host
  naming := hR.nameValue
  handed _ _ := fun _ => hR.refl _
  worldless hx := fun m => (hx m).symm ▸ hR.refl _
  bind hx hf := fun m => hR.sequence (fun m : Machine => m.world.heap) (hx m) hf
  lift hx := fun m => by
    rw [Eval.world_leaves_lift]
    exact hx m.world
  locate span hx := fun m => by
    rw [Eval.leaves_locate]
    exact hx m
  withReference r x hx := fun m => by
    rw [Eval.world_leaves_withReference]
    exact hx _ (m.acquire r).2

/-- A run leads to a related heap. -/
theorem evaluate (hR : Evolution R) (s : Settings) (n : Node) (m : Machine) :
    R m.world.heap (leaves (evaluate s n) m).world.heap :=
  (hR.pervasive s).evaluate n m

end Heap.Evolution

end ScriptOps
