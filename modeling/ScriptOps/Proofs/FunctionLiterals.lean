import ScriptOps.Proofs.RunProperties

/-!
# Functions of literals

A literal of a function makes a new function on the heap. `Heap.Accounts` says which literals made
the new functions of a later heap: the functions that were there are left alone, each literal makes
one function, and no other function comes up but by the host. Steps that no literal takes make none,
and what is done in sequence makes what both parts make.
-/

namespace ScriptOps

open Eval

/-! ### Functions of the host -/

/-- The reaction creates the function. -/
inductive Reaction.Creates (f : FunctionData) : Reaction → Prop where
  | here {next : ObjectId → Reaction} : Creates f (.create (.function f) next)
  | create {kind : ObjectKind} {next : ObjectId → Reaction} (id : ObjectId)
    (h : Creates f (next id)) : Creates f (.create kind next)
  | write {id : ObjectId} {key : String} {v : Value} {next : Bool → Reaction} (accepted : Bool)
    (h : Creates f (next accepted)) : Creates f (.write id key v next)
  | link {id : ObjectId} {prototype? : Option ObjectId} {next : Bool → Reaction} (accepted : Bool)
    (h : Creates f (next accepted)) : Creates f (.link id prototype? next)

/-- The host may create the function when it is asked. -/
def Host.Creates (host : Host) (f : FunctionData) : Prop :=
  ∃ c w, Reaction.Creates f (host.react c w)

/-! ### Functions of literals -/

/-- A literal of a function that was evaluated. -/
structure MadeFunction where
  /-- The function that it made. -/
  id : ObjectId
  /-- The name in the literal. -/
  name? : Option String
  /-- The kind of the literal. -/
  kind : FunctionKind
  /-- The name that the literal is assigned to, if it is itself the right-hand side of a plain
  assignment to a name and has none. -/
  target? : Option String

namespace MadeFunction

/-- The name that the function gets. -/
def name (c : MadeFunction) : String :=
  (c.name? <|> c.target?).getD ""

/-- The function. -/
def data (c : MadeFunction) : FunctionData :=
  ⟨c.name, c.kind, none⟩

/-- The literal as the right-hand side of a plain assignment to a name. -/
def assignedTo (c : MadeFunction) (target : String) : MadeFunction :=
  { c with target? := some target }

end MadeFunction

/-! ### What becomes of the functions on a heap -/

/-- The later heap has the functions of the earlier one, unchanged, and new ones: those that were
made by the literals, each by one, and those of the host. -/
structure Heap.Accounts (host : Host) (made : List MadeFunction) (h h' : Heap) : Prop where
  size_le : h.size ≤ h'.size
  kept : ∀ {id : ObjectId} {f : FunctionData}, h.kind id = .function f → h'.kind id = .function f
  named : ∀ c ∈ made, h.size ≤ c.id.index ∧ h'.kind c.id = .function c.data
  distinct : (made.map (·.id)).Nodup
  complete : ∀ {id : ObjectId} {f : FunctionData}, h'.kind id = .function f →
    h.kind id = .function f ∨ (∃ c ∈ made, c.id = id) ∨ host.Creates f

namespace Heap

variable {host : Host} {h h₁ h₂ : Heap}

/-- Only objects of the heap are functions. -/
theorem index_lt_of_kind {id : ObjectId} {f : FunctionData} (hf : h.kind id = .function f) :
    id.index < h.size := by
  by_contra hge
  rw [kind, object_of_ge h (Nat.le_of_not_lt hge)] at hf
  cases hf

/-- Additions keep the functions. -/
theorem kind_add {o : Object} {id : ObjectId} {f : FunctionData} (hf : h.kind id = .function f) :
    (h.add o).2.kind id = .function f := by
  rw [Heap.kind, object_add_of_lt h o (index_lt_of_kind hf)]
  exact hf

/-- They bring the function that they add, if it is one. -/
theorem kind_of_add {o : Object} {id : ObjectId} {f : FunctionData}
    (hf : (h.add o).2.kind id = .function f) :
    h.kind id = .function f ∨ id = ⟨h.size⟩ ∧ o.kind = .function f :=
  forall_object_add (P := fun id o' => o'.kind = .function f →
    h.kind id = .function f ∨ id = ⟨h.size⟩ ∧ o.kind = .function f)
    (fun _ => .inl) (fun ho => .inr ⟨rfl, ho⟩) id hf

namespace Accounts

/-- What is accounted for in two parts is accounted for as a whole. -/
theorem trans {made made' : List MadeFunction} (hfirst : Accounts host made h h₁)
    (hsecond : Accounts host made' h₁ h₂) : Accounts host (made ++ made') h h₂ where
  size_le := Nat.le_trans hfirst.size_le hsecond.size_le
  kept hf := hsecond.kept (hfirst.kept hf)
  named c hc := by
    rcases List.mem_append.1 hc with hc | hc
    · exact ⟨(hfirst.named c hc).1, hsecond.kept (hfirst.named c hc).2⟩
    · exact ⟨Nat.le_trans hfirst.size_le (hsecond.named c hc).1, (hsecond.named c hc).2⟩
  distinct := by
    rw [List.map_append, List.nodup_append]
    refine ⟨hfirst.distinct, hsecond.distinct, ?_⟩
    rintro _ hid _ hid' rfl
    obtain ⟨c, hc, rfl⟩ := List.mem_map.1 hid
    obtain ⟨c', hc', heq⟩ := List.mem_map.1 hid'
    have hlt := index_lt_of_kind (hfirst.named c hc).2
    have hle := (hsecond.named c' hc').1
    rw [heq] at hle
    omega
  complete hf := by
    rcases hsecond.complete hf with hf | ⟨c, hc, hid⟩ | hhost
    · rcases hfirst.complete hf with hf | ⟨c, hc, hid⟩ | hhost
      · exact .inl hf
      · exact .inr (.inl ⟨c, List.mem_append_left _ hc, hid⟩)
      · exact .inr (.inr hhost)
    · exact .inr (.inl ⟨c, List.mem_append_right _ hc, hid⟩)
    · exact .inr (.inr hhost)

/-- A step that concerns no function. -/
theorem of_same (hsize : h.size ≤ h₁.size)
    (hsame : ∀ id f, h₁.kind id = .function f ↔ h.kind id = .function f) :
    Accounts host [] h h₁ where
  size_le := hsize
  kept hf := (hsame _ _).2 hf
  named _ hc := absurd hc List.not_mem_nil
  distinct := List.nodup_nil
  complete hf := .inl ((hsame _ _).1 hf)

/-- A heap that stays the same accounts for nothing made. -/
theorem refl (h : Heap) : Accounts host [] h h :=
  of_same (Nat.le_refl _) fun _ _ => Iff.rfl

/-- So does one in which an object is replaced and a function stays what it is. -/
theorem update (id : ObjectId) {o : Object}
    (ho : ∀ f, o.kind = .function f ↔ h.kind id = .function f) :
    Accounts host [] h (h.update id o) := by
  refine of_same (Nat.le_of_eq (h.size_update id o).symm) fun other f => ?_
  exact forall_object_update (P := fun other o => o.kind = .function f ↔ h.kind other = .function f)
    (fun _ => Iff.rfl) (ho f) other

/-- An assignment goes to the elements of an array or to an explicit property. -/
theorem set {id : ObjectId} {key : String} {v : Value} (hset : h.set? id key v = some h₁) :
    Accounts host [] h h₁ := by
  unfold Heap.set? at hset
  obtain ⟨-, hmap⟩ := Option.ite_none_right_eq_some.1 hset
  obtain ⟨o, hassigned, rfl⟩ := Option.map_eq_some_iff.1 hmap
  refine update id fun f => ?_
  rcases Object.assigned?_cases hassigned with
    ⟨e, index, hkind, -, rfl⟩ | ⟨e, length, hkind, -, -, rfl⟩ | ⟨-, rfl⟩
  · simp [Heap.kind, hkind]
  · simp [Heap.kind, hkind]
  · exact Iff.rfl

/-- A new prototype makes no function. -/
theorem setPrototype {id : ObjectId} {prototype? : Option ObjectId}
    (hset : h.setPrototype? id prototype? = some h₁) : Accounts host [] h h₁ := by
  unfold Heap.setPrototype? at hset
  obtain ⟨-, hupdate⟩ := Option.ite_none_left_eq_some.1 hset
  obtain rfl := Option.some.inj hupdate
  exact update id fun f => Iff.rfl

/-- A new object that is no function, or one of the host. -/
theorem add {o : Object} (ho : ∀ f, o.kind = .function f → host.Creates f) :
    Accounts host [] h (h.add o).2 where
  size_le := by
    rw [size_add]
    exact Nat.le_succ _
  kept := kind_add
  named _ hc := absurd hc List.not_mem_nil
  distinct := List.nodup_nil
  complete hf := (kind_of_add hf).imp_right fun ⟨_, hf⟩ => .inr (ho _ hf)

/-- A new function of a literal. -/
theorem addMade {c : MadeFunction} {o : Object} (hid : c.id = ⟨h.size⟩)
    (ho : o.kind = .function c.data) : Accounts host [c] h (h.add o).2 where
  size_le := by
    rw [size_add]
    exact Nat.le_succ _
  kept := kind_add
  named c' hc' := by
    obtain rfl := List.mem_singleton.1 hc'
    rw [hid]
    exact ⟨Nat.le_refl _, (congrArg Object.kind (object_add h o)).trans ho⟩
  distinct := by simp
  complete hf := (kind_of_add hf).imp_right fun ⟨h, _⟩ =>
    .inl ⟨c, List.mem_singleton_self c, hid.trans h.symm⟩

/-- The creation of the function of a literal accounts for it. -/
theorem createFunction (host : Host) (h : Heap) (c : MadeFunction)
    (hid : c.id = (h.createFunction c.name c.kind).1) :
    Accounts host [c] h (h.createFunction c.name c.kind).2 := by
  have hprototype : Accounts host [] h (h.create .ordinary).2 := add nofun
  obtain ⟨id, name?, kind, target?⟩ := c
  cases kind with
  | arrow => exact addMade hid rfl
  | function => exact hprototype.trans (addMade hid rfl)
  | classLiteral => exact hprototype.trans (addMade hid rfl)

end Accounts

/-- What was just added is replaced. -/
theorem update_add (h : Heap) (o o' : Object) :
    (h.add o).2.update (h.add o).1 o' = (h.add o').2 := by
  simp [Heap.update, Heap.add, Heap.size, Array.setIfInBounds, Array.set_push]

/-- A function that is named at once is made with the name. -/
theorem nameFunction_add (h : Heap) {o : Object} {kind : FunctionKind}
    (ho : o.kind = .function ⟨"", kind, none⟩) (name : String) :
    (h.add o).2.nameFunction (h.add o).1 name =
      (h.add { o with kind := .function ⟨name, kind, none⟩ }).2 := by
  have hobject := object_add h o
  unfold Heap.nameFunction
  rw [hobject]
  dsimp only
  rw [ho]
  exact update_add h o _

/-- A function that is named after its creation is as if it was created with the name. -/
theorem nameFunction_createFunction (h : Heap) (name : String) (kind : FunctionKind) :
    (h.createFunction "" kind).2.nameFunction (h.createFunction "" kind).1 name =
      (h.createFunction name kind).2 := by
  cases kind with
  | arrow => exact nameFunction_add h rfl name
  | function => exact nameFunction_add _ rfl name
  | classLiteral => exact nameFunction_add _ rfl name

/-- The name does not decide the identity. -/
theorem id_createFunction (h : Heap) (name name' : String) (kind : FunctionKind) :
    (h.createFunction name kind).1 = (h.createFunction name' kind).1 := by
  cases kind <;> rfl

end Heap

/-! ### Effects on the world -/

/-- What is made after an effect, if it comes to a value. -/
def madeAfter {σ α : Type} (x : EStateM Error σ α) (rest : α → σ → List MadeFunction) (st : σ) :
    List MadeFunction :=
  match x st with
  | .ok a st' => rest a st'
  | .error _ _ => []

/-- What two effects in sequence make. -/
theorem Heap.Accounts.sequence {host : Host} {σ α β : Type} (heap : σ → Heap)
    {x : EStateM Error σ α} {f : α → EStateM Error σ β} {st : σ} {made : List MadeFunction}
    {rest : α → σ → List MadeFunction}
    (hx : Heap.Accounts host made (heap st) (heap (leaves x st)))
    (hf : ∀ a st', Heap.Accounts host (rest a st') (heap st') (heap (leaves (f a) st'))) :
    Heap.Accounts host (made ++ madeAfter x rest st) (heap st) (heap (leaves (x >>= f) st)) := by
  rw [leaves_bind]
  unfold leaves at hx
  unfold madeAfter
  cases hrun : x st with
  | ok a st' =>
    rw [hrun] at hx
    exact hx.trans (hf a st')
  | error e st' =>
    rw [hrun] at hx
    exact hx.trans (.refl _)

/-- The effect makes no function of a literal. -/
def Action.IsQuiet (host : Host) ⦃α : Type⦄ (x : Action α) : Prop :=
  ∀ w, Heap.Accounts host [] w.heap (leaves x w).heap

namespace Action.IsQuiet

variable {host : Host} {α β : Type}

/-- A sequence makes no function of a literal if its parts make none. -/
theorem bind {x : Action α} {f : α → Action β} (hx : IsQuiet host x)
    (hf : ∀ a, IsQuiet host (f a)) : IsQuiet host (x >>= f) := by
  intro w
  have hboth := Heap.Accounts.sequence World.heap (hx w) hf
  unfold madeAfter at hboth
  cases hrun : x w <;> rwa [hrun] at hboth

/-- An assignment makes none. -/
theorem assign (id : ObjectId) (key : String) (v : Value) :
    IsQuiet host (Action.assign id key v) := by
  intro w
  rw [leaves, Action.assign_eq]
  cases hset : w.heap.set? id key v with
  | some h => exact .set hset
  | none => exact .refl _

/-- Neither does a new prototype. -/
theorem link (id : ObjectId) (prototype? : Option ObjectId) :
    IsQuiet host (Action.link id prototype?) := by
  intro w
  rw [leaves, Action.link_eq]
  cases hset : w.heap.setPrototype? id prototype? with
  | some h => exact .setPrototype hset
  | none => exact .refl _

/-- What is created is no function, or one of the host. -/
theorem create {kind : ObjectKind} (hkind : ∀ f, kind = .function f → host.Creates f) :
    IsQuiet host (Action.create kind) :=
  fun _ => .add hkind

/-- A reaction of the host brings functions of the host only. -/
theorem run (r : Reaction) (hr : ∀ f, r.Creates f → host.Creates f) : IsQuiet host r.run := by
  induction r with
  | answer v => exact fun w => .refl _
  | fail e => exact fun w => .refl _
  | write id key v next ih =>
    have hobserve (accepted : Bool) : IsQuiet host (Action.observe (.wrote accepted)) :=
      fun w => .refl _
    exact (assign id key v).bind fun accepted => (hobserve accepted).bind fun _ =>
      ih accepted fun f hf => hr f (.write accepted hf)
  | create kind next ih =>
    have hcreate : IsQuiet host (Action.create kind) := create fun f hf => by
      subst hf
      exact hr f .here
    exact hcreate.bind fun id => ih id fun f hf => hr f (.create id hf)
  | link id prototype? next ih =>
    exact (link id prototype?).bind fun accepted => ih accepted fun f hf => hr f (.link accepted hf)

/-- Neither does a callback of the host. -/
theorem ask (c : Callback) : IsQuiet host (host.ask c) := by
  intro w
  exact run (host.react c w) (fun f hf => ⟨c, w, hf⟩) { w with trace := .invoked c :: w.trace }

/-- So is everything that creates nothing itself. -/
theorem literalFree (host : Host) : Action.LiteralFree host (IsQuiet host) where
  pure _ := fun _ => .refl _
  bind := bind
  fail _ := fun _ => .refl _
  heap := fun _ => .refl _
  assign := assign
  compared _ _ := fun _ => .refl _
  ask := ask

end Action.IsQuiet

end ScriptOps
