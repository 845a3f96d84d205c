import ScriptOps.Environment

/-!
# The stack of scopes is a chain

The environments that arise from the empty one by their operations. Their stack is the chain of
scopes outward from the innermost one, so a name is looked up along the same scopes in which it is
resolved: what a lookup finds is the value in the scope that the name resolves to.
-/

namespace ScriptOps

/-! ### Chains of scopes -/

namespace ScopeStore

/-- The list goes from a scope outward to one without a parent. Each parent is older, so that the
way ends. -/
inductive IsChain (s : ScopeStore) : List ScopeId → Prop where
  | outermost {id : ScopeId} (hid : id.index < s.scopes.size)
    (hparent : (s.scope id).parent? = none) : IsChain s [id]
  | inner {id parent : ScopeId} {rest : List ScopeId} (hid : id.index < s.scopes.size)
    (hparent : (s.scope id).parent? = some parent) (hlt : parent.index < id.index)
    (hrest : IsChain s (parent :: rest)) : IsChain s (id :: parent :: rest)

variable {s t : ScopeStore} {l : List ScopeId} {id : ScopeId}

namespace IsChain

/-- A chain is never empty. -/
theorem ne_nil (h : s.IsChain l) : l ≠ [] := by
  cases h <;> simp

/-- The first scope of a chain exists. -/
theorem lt_size (h : s.IsChain (id :: l)) : id.index < s.scopes.size := by
  cases h <;> assumption

/-- Stores with the same parents have the same chains. -/
theorem of_parents (h : s.IsChain l) (hsize : s.scopes.size ≤ t.scopes.size)
    (hparents : ∀ id : ScopeId, id.index < s.scopes.size →
      (t.scope id).parent? = (s.scope id).parent?) : t.IsChain l := by
  induction h with
  | outermost hid hparent =>
    exact .outermost (Nat.lt_of_lt_of_le hid hsize) ((hparents _ hid).trans hparent)
  | inner hid hparent hlt _ ih =>
    exact .inner (Nat.lt_of_lt_of_le hid hsize) ((hparents _ hid).trans hparent) hlt ih

/-- With enough fuel the way outward is the chain. -/
theorem outwardUpTo_eq (h : s.IsChain (id :: l)) {fuel : Nat} (hfuel : id.index < fuel) :
    s.outwardUpTo fuel id = id :: l := by
  generalize hchain : id :: l = chain at h
  induction h generalizing id l fuel with
  | outermost hid hparent =>
    obtain ⟨rfl, rfl⟩ := List.cons.inj hchain
    obtain ⟨fuel, rfl⟩ : ∃ n, fuel = n + 1 := ⟨fuel - 1, by omega⟩
    rw [outwardUpTo, hparent]
  | inner hid hparent hlt _ ih =>
    obtain ⟨rfl, rfl⟩ := List.cons.inj hchain
    obtain ⟨fuel, rfl⟩ : ∃ n, fuel = n + 1 := ⟨fuel - 1, by omega⟩
    rw [outwardUpTo, hparent]
    exact congrArg (id :: ·) (ih (by omega) rfl)

/-- The chain from a scope outwards is found. -/
theorem outward_eq (h : s.IsChain (id :: l)) : s.outward id = id :: l :=
  h.outwardUpTo_eq (Nat.lt_succ_of_lt h.lt_size)

end IsChain

/-- Declaring a name changes no parent. -/
theorem parent?_define (s : ScopeStore) (id other : ScopeId) (name : String) (v : Value)
    (m : Mutability) : ((s.define id name v m).scope other).parent? = (s.scope other).parent? := by
  unfold define
  by_cases hother : other = id
  · subst hother
    by_cases hid : other.index < s.scopes.size
    · rw [scope_update_self _ _ _ hid, Scope.define]
    · simp [ScopeStore.scope, update, hid]
  · rw [scope_update_of_ne _ hother]

/-- A declaration adds no scope. -/
theorem size_define (s : ScopeStore) (id : ScopeId) (name : String) (v : Value) (m : Mutability) :
    (s.define id name v m).scopes.size = s.scopes.size := by
  simp [define, update]

/-- Giving a name a new value declares it once more. -/
theorem eq_define_of_setOwn {name : String} {v : Value} (h : s.setOwn id name v = .ok t) :
    t = s.define id name v .mutable := by
  unfold setOwn Scope.setOwn at h
  split at h <;> cases h
  rfl

/-- The first value of a name is the one in the first scope that declares it. -/
theorem findSome?_getOwn? (s : ScopeStore) (name : String) (l : List ScopeId) :
    l.findSome? (fun id => (s.scope id).getOwn? name) =
      (l.find? fun id => (s.scope id).declares name).bind fun id => (s.scope id).getOwn? name := by
  induction l with
  | nil => rfl
  | cons id rest ih =>
    rw [List.findSome?_cons, List.find?_cons]
    have hdeclares : (s.scope id).declares name = ((s.scope id).getOwn? name).isSome := by
      rw [Scope.declares, Table.contains, Scope.getOwn?, Option.isSome_map]
    cases hget : (s.scope id).getOwn? name with
    | none =>
      rw [hdeclares, hget]
      exact ih
    | some v =>
      rw [hdeclares, hget]
      exact hget.symm

end ScopeStore

/-! ### Environments that arise from the empty one -/

namespace Environment

/-- The environments that arise from the empty one. -/
inductive Reachable : Environment → Prop where
  | empty : Reachable .empty
  | push {e : Environment} : Reachable e → Reachable e.push
  | pop {e : Environment} : Reachable e → Reachable e.pop
  | define {e : Environment} (name : String) (v : Value) (m : Mutability) :
    Reachable e → Reachable (e.define name v m)
  | defineGlobal {e : Environment} (name : String) (v : Value) (m : Mutability) :
    Reachable e → Reachable (e.defineGlobal name v m)
  | setOwn {e e' : Environment} (id : ScopeId) (name : String) (v : Value) :
    Reachable e → e.setOwn id name v = .ok e' → Reachable e'

/-- The stack goes from the innermost scope outward. -/
def IsLinked (e : Environment) : Prop :=
  e.store.IsChain e.stack

variable {e e' : Environment}

/-- The scopes of a new environment are linked. -/
theorem IsLinked.empty : IsLinked .empty :=
  .outermost (by decide) rfl

/-- They stay linked when a name is declared in one of them. -/
theorem IsLinked.defineIn (h : e.IsLinked) (id : ScopeId) (name : String) (v : Value)
    (m : Mutability) : IsLinked { e with store := e.store.define id name v m } :=
  h.of_parents (Nat.le_of_eq (e.store.size_define id name v m).symm) fun other _ =>
    e.store.parent?_define id other name v m

/-- A new scope goes on top of the stack. -/
theorem IsLinked.push (h : e.IsLinked) : e.push.IsLinked := by
  obtain ⟨store, stack⟩ := e
  cases stack with
  | nil => exact absurd rfl h.ne_nil
  | cons top rest =>
    have hold : (store.add (some top)).2.IsChain (top :: rest) := by
      refine h.of_parents (by simp [ScopeStore.add]) fun id hid => ?_
      simp [ScopeStore.add, ScopeStore.scope, Array.getElem?_push_lt hid, hid]
    have hparent :
        ((store.add (some top)).2.scope (store.add (some top)).1).parent? = some top := by
      simp [ScopeStore.add, ScopeStore.scope]
    have hid : store.scopes.size < (store.add (some top)).2.scopes.size := by
      simp [ScopeStore.add]
    exact .inner hid hparent h.lt_size hold

/-- The outermost scope stays on the stack. -/
theorem IsLinked.pop (h : e.IsLinked) : e.pop.IsLinked := by
  unfold Environment.pop
  split
  · next hdepth =>
    obtain ⟨store, stack⟩ := e
    cases h with
    | outermost => simp [depth] at hdepth
    | inner _ _ _ hrest => exact hrest
  · exact h

/-- Giving a name a new value declares it once more in its scope. -/
theorem eq_define_of_setOwn {id : ScopeId} {name : String} {v : Value}
    (hset : e.setOwn id name v = .ok e') :
    e' = { e with store := e.store.define id name v .mutable } := by
  unfold Environment.setOwn at hset
  cases hstore : e.store.setOwn id name v with
  | error cause =>
    rw [hstore] at hset
    nomatch hset
  | ok store =>
    rw [hstore] at hset
    obtain rfl := Except.ok.inj hset
    rw [ScopeStore.eq_define_of_setOwn hstore]

/-- A new value is accepted only where the name is mutable. -/
theorem mutability?_of_setOwn {id : ScopeId} {name : String} {v : Value}
    (hset : e.setOwn id name v = .ok e') :
    (e.store.scope id).mutability? name = some .mutable := by
  unfold Environment.setOwn ScopeStore.setOwn Scope.setOwn at hset
  cases hmutability : (e.store.scope id).mutability? name with
  | none =>
    rw [hmutability] at hset
    nomatch hset
  | some mutability =>
    rw [hmutability] at hset
    cases mutability with
    | mutable => rfl
    | immutable | readOnly => nomatch hset

/-- Only a scope that does not declare a name refuses it as undeclared. -/
theorem not_declares_of_setOwn {id : ScopeId} {name : String} {v : Value}
    (h : e.setOwn id name v = .error .undeclared) : (e.store.scope id).declares name = false := by
  unfold Environment.setOwn ScopeStore.setOwn Scope.setOwn at h
  cases hmutability : (e.store.scope id).mutability? name with
  | none =>
    rw [Scope.mutability?, Option.map_eq_none_iff] at hmutability
    simp [Scope.declares, Table.contains, hmutability]
  | some mutability =>
    rw [hmutability] at h
    cases mutability <;> cases h

/-- They stay linked when a binding is written. -/
theorem IsLinked.setOwn {id : ScopeId} {name : String} {v : Value} (h : e.IsLinked)
    (hset : e.setOwn id name v = .ok e') : e'.IsLinked := by
  rw [eq_define_of_setOwn hset]
  exact h.defineIn id name v .mutable

/-- The invariant of the bindings. -/
theorem Reachable.isLinked (h : e.Reachable) : e.IsLinked := by
  induction h with
  | empty => exact .empty
  | push _ ih => exact ih.push
  | pop _ ih => exact ih.pop
  | define name v m _ ih => exact ih.defineIn _ name v m
  | defineGlobal name v m _ ih => exact ih.defineIn _ name v m
  | setOwn id name v _ hset ih => exact ih.setOwn hset

/-- Declaring a name that is not declared is one of the operations too. -/
theorem Reachable.defineOrAssign {name : String} {v : Value} (h : e.Reachable)
    (hset : e.defineOrAssign name v = .ok e') : e'.Reachable := by
  unfold Environment.defineOrAssign at hset
  split at hset
  · exact h.setOwn _ name v hset
  · cases hset
    exact h.defineGlobal name v .mutable

/-- An assignment along the chain gives a declared name a new value. -/
theorem Reachable.assign {name : String} {v : Value} (h : e.Reachable)
    (hset : e.assign name v = .ok e') : e'.Reachable := by
  unfold Environment.assign ScopeStore.assign at hset
  split at hset
  · exact h.setOwn _ name v hset
  · nomatch hset

/-! ### Looking names up -/

/-- The scope that a name resolves to declares it. -/
theorem declares_of_resolve? {name : String} {id : ScopeId} (h : e.resolve? name = some id) :
    (e.store.scope id).declares name = true := by
  unfold Environment.resolve? at h
  simpa using List.find?_some h

/-- A name is looked up where it is resolved. -/
theorem IsLinked.lookup?_eq (h : e.IsLinked) (name : String) :
    e.lookup? name = (e.resolve? name).bind fun id => (e.store.scope id).getOwn? name := by
  obtain ⟨store, stack⟩ := e
  cases stack with
  | nil => exact absurd rfl h.ne_nil
  | cons top rest =>
    have houtward : store.outward top = top :: rest := h.outward_eq
    change (store.outward top).findSome? (fun i => (store.scope i).getOwn? name) =
      ((top :: rest).find? fun i => (store.scope i).declares name).bind _
    rw [houtward]
    exact ScopeStore.findSome?_getOwn? store name (top :: rest)

/-! ### Single bindings -/

/-- The binding of a name in a scope. -/
def binding? (e : Environment) (id : ScopeId) (name : String) : Option Binding :=
  (e.store.scope id).bindings.get? name

/-- Declaring a name changes its binding in one scope. -/
theorem binding?_define (e : Environment) (id other : ScopeId) (name key : String) (v : Value)
    (m : Mutability) :
    binding? { e with store := e.store.define id name v m } other key =
      if other = id ∧ key = name ∧ id.index < e.store.scopes.size then some ⟨v, m⟩
      else e.binding? other key := by
  unfold binding? ScopeStore.define
  by_cases hother : other = id
  · subst hother
    by_cases hid : other.index < e.store.scopes.size
    · rw [ScopeStore.scope_update_self _ _ _ hid, Scope.define, Table.get?_insert]
      simp [hid]
    · simp [ScopeStore.scope, ScopeStore.update, hid]
  · rw [ScopeStore.scope_update_of_ne _ hother]
    simp [hother]

/-- The global scope is the last one of the stack. -/
theorem Reachable.getLast?_stack (h : e.Reachable) : e.stack.getLast? = some global := by
  induction h with
  | empty => rfl
  | @push e _ ih =>
    rw [Environment.push, List.getLast?_cons, ih]
    rfl
  | @pop e _ ih =>
    rw [Environment.pop]
    split
    · next hdepth =>
      obtain ⟨store, stack⟩ := e
      cases stack with
      | nil => nomatch ih
      | cons top rest =>
        cases rest with
        | nil => exact absurd hdepth (Nat.lt_irrefl 1)
        | cons below rest => rwa [List.getLast?_cons_cons] at ih
    · exact ih
  | define name v m _ ih => exact ih
  | defineGlobal name v m _ ih => exact ih
  | setOwn id name v _ hset ih => rwa [eq_define_of_setOwn hset]

/-- The global scope is always entered. -/
theorem Reachable.global_mem_stack (h : e.Reachable) : global ∈ e.stack :=
  List.mem_of_getLast? h.getLast?_stack

end Environment

end ScriptOps
