import ScriptOps.Proofs.EnvironmentChain

/-!
# Lookups follow resolution

A name is read along the scopes around the innermost one, and it is written in the scope of the
stack that it resolves to. The stack of a reachable environment is the chain of those scopes, so
the two agree: what is read is what was written, in the same scope. `Environment.Rebinds` says what
an accepted write changes, and `Environment.perform` follows the operations of an environment one
after the other, refused writes included.
-/

namespace ScriptOps

/-- An operation on an environment. -/
inductive EnvironmentStep where
  | push
  | pop
  | define (name : String) (v : Value) (m : Mutability)
  | defineGlobal (name : String) (v : Value) (m : Mutability)
  | assign (name : String) (v : Value)
  | defineOrAssign (name : String) (v : Value)

namespace Environment

/-- The environment that a write leaves: a refused one leaves what there was. -/
def accept (e : Environment) : Except BindingError Environment → Environment
  | .ok e' => e'
  | .error _ => e

/-- The environment after an operation. -/
def perform (e : Environment) : EnvironmentStep → Environment
  | .push => e.push
  | .pop => e.pop
  | .define name v m => e.define name v m
  | .defineGlobal name v m => e.defineGlobal name v m
  | .assign name v => e.accept (e.assign name v)
  | .defineOrAssign name v => e.accept (e.defineOrAssign name v)

/-- The binding of a name in a scope is mutable and has a value, and nothing else has changed. -/
structure Rebinds (e : Environment) (id : ScopeId) (name : String) (v : Value) (e' : Environment) :
    Prop where
  stack : e'.stack = e.stack
  size : e'.store.scopes.size = e.store.scopes.size
  parent : ∀ other, (e'.store.scope other).parent? = (e.store.scope other).parent?
  bound : e'.binding? id name = some ⟨v, .mutable⟩
  frame : ∀ other key, (other, key) ≠ (id, name) → e'.binding? other key = e.binding? other key

variable {e e' : Environment} {id : ScopeId} {name : String} {v : Value}

/-! ### Single writes -/

/-- A declaration binds a name in one scope. -/
theorem rebinds_define (hid : id.index < e.store.scopes.size) :
    e.Rebinds id name v { e with store := e.store.define id name v .mutable } where
  stack := rfl
  size := e.store.size_define id name v .mutable
  parent other := e.store.parent?_define id other name v .mutable
  bound := by rw [binding?_define, if_pos ⟨rfl, rfl, hid⟩]
  frame other key hne := by
    rw [binding?_define, if_neg]
    rintro ⟨rfl, rfl, -⟩
    exact hne rfl

/-- Only the scopes that there are declare names. -/
theorem lt_size_of_declares (h : (e.store.scope id).declares name = true) :
    id.index < e.store.scopes.size := by
  by_cases hid : id.index < e.store.scopes.size
  · exact hid
  · have hnone : e.store.scopes[id.index]? = none := Array.getElem?_eq_none (Nat.le_of_not_lt hid)
    simp [ScopeStore.scope, hnone, Scope.declares, Table.contains] at h

/-- A write to a declared name binds it anew in its scope. -/
theorem rebinds_setOwn (hdeclares : (e.store.scope id).declares name = true)
    (hset : e.setOwn id name v = .ok e') : e.Rebinds id name v e' := by
  rw [eq_define_of_setOwn hset]
  exact rebinds_define (lt_size_of_declares hdeclares)

/-- The global scope is there. -/
theorem IsLinked.global_lt_size (h : e.IsLinked) : global.index < e.store.scopes.size := by
  obtain ⟨store, stack⟩ := e
  cases stack with
  | nil => exact absurd rfl h.ne_nil
  | cons top rest => exact Nat.lt_of_le_of_lt (Nat.zero_le _) h.lt_size

/-! ### Writes along the chain -/

/-- An assignment goes to the scope that the name resolves to. -/
theorem IsLinked.assign_eq (h : e.IsLinked) (name : String) (v : Value) :
    e.assign name v = match e.resolve? name with
      | some id => e.setOwn id name v
      | none => .error .undeclared := by
  obtain ⟨store, stack⟩ := e
  cases stack with
  | nil => exact absurd rfl h.ne_nil
  | cons top rest =>
    have houtward : store.outward top = top :: rest := h.outward_eq
    have hassign : store.assign top name v =
        match (top :: rest).find? fun id => (store.scope id).declares name with
        | some id => store.setOwn id name v
        | none => .error .undeclared := by
      rw [← houtward]
      rfl
    change (store.assign top name v).map _ =
      match (top :: rest).find? fun id => (store.scope id).declares name with
      | some id => (store.setOwn id name v).map _
      | none => .error .undeclared
    rw [hassign]
    cases (top :: rest).find? fun id => (store.scope id).declares name <;> rfl

/-- Only a name without a declaration is refused as undeclared. -/
theorem IsLinked.assign_eq_undeclared_iff (h : e.IsLinked) (name : String) (v : Value) :
    e.assign name v = .error .undeclared ↔ e.resolve? name = none := by
  rw [h.assign_eq]
  cases hresolve : e.resolve? name with
  | none => exact ⟨fun _ => rfl, fun _ => rfl⟩
  | some id =>
    refine ⟨fun herror => ?_, fun hnone => nomatch hnone⟩
    have hdeclares := declares_of_resolve? hresolve
    rw [not_declares_of_setOwn herror] at hdeclares
    nomatch hdeclares

/-- An assignment binds the name anew in the scope that is resolved for it. -/
theorem IsLinked.rebinds_assign (h : e.IsLinked) (hset : e.assign name v = .ok e') :
    ∃ id, e.resolve? name = some id ∧ e.Rebinds id name v e' := by
  rw [h.assign_eq] at hset
  cases hresolve : e.resolve? name with
  | none =>
    rw [hresolve] at hset
    nomatch hset
  | some id =>
    rw [hresolve] at hset
    exact ⟨id, rfl, rebinds_setOwn (declares_of_resolve? hresolve) hset⟩

/-- A name that no scope declares becomes a global one. -/
theorem IsLinked.rebinds_defineOrAssign (h : e.IsLinked)
    (hset : e.defineOrAssign name v = .ok e') :
    e.Rebinds ((e.resolve? name).getD global) name v e' := by
  unfold Environment.defineOrAssign at hset
  cases hresolve : e.resolve? name with
  | none =>
    rw [hresolve] at hset
    obtain rfl := Except.ok.inj hset
    exact rebinds_define h.global_lt_size
  | some id =>
    rw [hresolve] at hset
    exact rebinds_setOwn (declares_of_resolve? hresolve) hset

/-! ### Runs -/

/-- A step leads from a reachable environment to a reachable one. -/
theorem Reachable.perform (h : e.Reachable) (step : EnvironmentStep) :
    (e.perform step).Reachable := by
  cases step with
  | push => exact h.push
  | pop => exact h.pop
  | define name v m => exact h.define name v m
  | defineGlobal name v m => exact h.defineGlobal name v m
  | assign name v =>
    rw [Environment.perform]
    cases hset : e.assign name v with
    | ok e' => exact h.assign hset
    | error cause => exact h
  | defineOrAssign name v =>
    rw [Environment.perform]
    cases hset : e.defineOrAssign name v with
    | ok e' => exact h.defineOrAssign hset
    | error cause => exact h

/-- So do any steps. -/
theorem Reachable.performAll (h : e.Reachable) (steps : List EnvironmentStep) :
    (steps.foldl Environment.perform e).Reachable := by
  induction steps generalizing e with
  | nil => exact h
  | cons step rest ih => exact ih (h.perform step)

/-- A new scope binds nothing. -/
theorem binding?_push (e : Environment) (id : ScopeId) (name : String) :
    e.push.binding? id name = e.binding? id name := by
  have hscopes : e.push.store.scopes = e.store.scopes.push ⟨{}, some e.innermost⟩ := rfl
  unfold binding? ScopeStore.scope
  rw [hscopes]
  rcases Nat.lt_trichotomy id.index e.store.scopes.size with hlt | heq | hgt
  · simp [Array.getElem?_push_lt hlt, hlt]
  · simp [heq]
  · have hnone : (e.store.scopes.push ⟨{}, some e.innermost⟩)[id.index]? = none :=
      Array.getElem?_eq_none (by rw [Array.size_push]; omega)
    have hnone' : e.store.scopes[id.index]? = none := Array.getElem?_eq_none (Nat.le_of_lt hgt)
    simp [hnone, hnone']

/-- Declaring a name takes no other declaration away. -/
theorem isSome_binding?_define (h : (e.binding? id name).isSome) (other : ScopeId) (key : String)
    (v : Value) (m : Mutability) :
    (binding? { e with store := e.store.define other key v m } id name).isSome := by
  rw [binding?_define]
  split
  · rfl
  · exact h

/-- A name that is bound in a scope stays bound when another binding changes. -/
theorem Rebinds.isSome_binding? {other : ScopeId} {key : String} (h : e.Rebinds other key v e')
    (hbound : (e.binding? id name).isSome) : (e'.binding? id name).isSome := by
  by_cases heq : (id, name) = (other, key)
  · obtain ⟨rfl, rfl⟩ := Prod.mk.inj heq
    rw [h.bound]
    rfl
  · rw [h.frame id name heq]
    exact hbound

/-- A scope that declares a name declares it for ever, on the stack or not. -/
theorem Reachable.isSome_binding?_perform (he : e.Reachable) (h : (e.binding? id name).isSome)
    (step : EnvironmentStep) : ((e.perform step).binding? id name).isSome := by
  cases step with
  | push => rwa [Environment.perform, binding?_push]
  | pop =>
    rw [Environment.perform, Environment.pop]
    split <;> exact h
  | define key v m => exact isSome_binding?_define h _ key v m
  | defineGlobal key v m => exact isSome_binding?_define h _ key v m
  | assign key v =>
    rw [Environment.perform]
    cases hset : e.assign key v with
    | ok e' =>
      obtain ⟨_, _, hrebinds⟩ := he.isLinked.rebinds_assign hset
      exact hrebinds.isSome_binding? h
    | error cause => exact h
  | defineOrAssign key v =>
    rw [Environment.perform]
    cases hset : e.defineOrAssign key v with
    | ok e' => exact (he.isLinked.rebinds_defineOrAssign hset).isSome_binding? h
    | error cause => exact h

/-- So it stays bound through any steps. -/
theorem Reachable.isSome_binding?_performAll (he : e.Reachable)
    (h : (e.binding? id name).isSome) (steps : List EnvironmentStep) :
    ((steps.foldl Environment.perform e).binding? id name).isSome := by
  induction steps generalizing e with
  | nil => exact h
  | cons step rest ih => exact ih (he.perform step) (he.isSome_binding?_perform h step)

end Environment

/-- Lookups follow resolution. After any operations the stack has a scope, and the last one is the
global scope. A name reads as its value in the scope that it resolves to; an assignment to it is a
write to that scope, and it is refused as undeclared exactly when there is none. The scope declares
the name whatever operations follow. A refused write changes nothing; an accepted one changes the
binding of the name in the scope that it resolves to, and nothing else, or makes a global one. -/
theorem lookups_follow_resolution (steps : List EnvironmentStep) :
    let e := steps.foldl Environment.perform .empty
    (1 ≤ e.depth ∧ e.stack.getLast? = some Environment.global) ∧
    ∀ name v,
      e.lookup? name = ((e.resolve? name).bind fun id => (e.store.scope id).getOwn? name) ∧
      (e.assign name v = match e.resolve? name with
        | some id => e.setOwn id name v
        | none => .error .undeclared) ∧
      (e.assign name v = .error .undeclared ↔ e.resolve? name = none) ∧
      (∀ id, e.resolve? name = some id → ∀ more : List EnvironmentStep,
        ((more.foldl Environment.perform e).store.scope id).declares name = true) ∧
      (∀ cause, e.assign name v = .error cause → e.perform (.assign name v) = e) ∧
      (∀ cause, e.defineOrAssign name v = .error cause →
        e.perform (.defineOrAssign name v) = e) ∧
      (∀ e', e.assign name v = .ok e' →
        ∃ id, e.resolve? name = some id ∧ e.Rebinds id name v e') ∧
      ∀ e', e.defineOrAssign name v = .ok e' →
        e.Rebinds ((e.resolve? name).getD Environment.global) name v e' := by
  intro e
  have he : e.Reachable := Environment.Reachable.empty.performAll steps
  have hlinked := he.isLinked
  have hlast := he.getLast?_stack
  have hdepth : 1 ≤ e.depth := by
    obtain ⟨l, hl⟩ := List.getLast?_eq_some_iff.1 hlast
    simp [Environment.depth, hl]
  refine ⟨⟨hdepth, hlast⟩, fun name v => ⟨hlinked.lookup?_eq name, hlinked.assign_eq name v,
    hlinked.assign_eq_undeclared_iff name v, fun id hid more => ?_, fun cause herror => ?_,
    fun cause herror => ?_, fun e' hset => hlinked.rebinds_assign hset,
    fun e' hset => hlinked.rebinds_defineOrAssign hset⟩⟩
  · have hdeclares := Environment.declares_of_resolve? hid
    exact he.isSome_binding?_performAll hdeclares more
  · rw [Environment.perform, herror, Environment.accept]
  · rw [Environment.perform, herror, Environment.accept]

end ScriptOps
