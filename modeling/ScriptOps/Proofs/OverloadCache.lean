import Mathlib.Data.Finset.Card
import Mathlib.Data.List.Induction
import ScriptOps.Proofs.FailedAssignment
import ScriptOps.Proofs.OperatorMethods

/-!
# Remembered operator methods

A resolver that remembers its answers cannot be told from a catalog that is searched each time. A
key holds all that the search depends on, so an answer is right for all operands with that key,
whichever operands it was first given for; the absence of a method is an answer like any other. Of
any look-ups and calls, the resolver has searched and remembered exactly the keys that were asked
for, each once.
-/

namespace ScriptOps

open Eval

/-! ### Searching without a memory -/

/-- The best method for two operands, if one of them is a host object and both have a type. -/
def Catalog.methodFor? (c : Catalog) (h : Heap) (op : BinaryOp) (l r : Value) :
    Option OperatorMethod :=
  if (h.hostObject? l).isSome ∨ (h.hostObject? r).isSome then do
    c.bestMatch? op (← OperandType.of? h l) (← OperandType.of? h r)
  else none

/-- Calls the method for two operands, if there is one. -/
def Catalog.dispatch? (c : Catalog) (host : Host) (op : BinaryOp) (l r : Value) :
    Action (Option Value) := do
  match c.methodFor? (← Action.heap) op l r with
  | some method => return some (← method.invoke host l r)
  | none => return none

/-- A search depends on the key of the operands alone. -/
theorem Catalog.methodFor?_eq (c : Catalog) (h : Heap) (op : BinaryOp) (l r : Value) :
    c.methodFor? h op l r =
      (OverloadKey.of? h op l r).bind fun key => c.bestMatch? key.operator key.left key.right := by
  rw [Catalog.methodFor?, OverloadKey.of?_eq]
  split
  · cases OperandType.of? h l with
    | none => rfl
    | some left =>
      cases OperandType.of? h r with
      | none => rfl
      | some right => rfl
  · rfl

/-! ### What a resolver remembers -/

/-- The resolver has searched the catalog for these keys, and called this many methods. -/
structure Resolver.Remembers (c : Catalog) (keys : Finset OverloadKey) (calls : Nat)
    (res : Resolver) : Prop where
  /-- The catalog stays. -/
  catalog : res.catalog = c
  /-- Exactly these keys are remembered, each with what the search gives, the absence of a method
  included. -/
  cached : ∀ key, res.cache.get? key =
    if key ∈ keys then some (c.bestMatch? key.operator key.left key.right) else none
  /-- The cache has one entry for each key. -/
  size : res.cache.size = keys.card
  /-- The catalog was searched once for each key. -/
  resolutions : res.resolutions = keys.card
  /-- The calls were counted. -/
  dispatches : res.dispatches = calls

namespace Resolver.Remembers

variable {catalog : Catalog} {keys : Finset OverloadKey} {n : Nat} {res : Resolver}

/-- At first nothing is remembered. -/
theorem ofCatalog (catalog : Catalog) : (Resolver.ofCatalog catalog).Remembers catalog ∅ 0 :=
  ⟨rfl, fun _ => rfl, rfl, rfl, rfl⟩

/-- Counting a call leaves the answers alone. -/
theorem countDispatch (h : res.Remembers catalog keys n) :
    res.countDispatch.Remembers catalog keys (n + 1) :=
  ⟨h.catalog, h.cached, h.size, h.resolutions, congrArg (· + 1) h.dispatches⟩

/-- The answer for a key is that of the search. -/
theorem resolve_fst (h : res.Remembers catalog keys n) (key : OverloadKey) :
    (res.resolve key).1 = catalog.bestMatch? key.operator key.left key.right := by
  have hcached := h.cached key
  unfold Resolver.resolve
  split at hcached
  · rw [hcached]
  · rw [hcached, h.catalog]

/-- Afterwards the key is remembered too. -/
theorem resolve_snd (h : res.Remembers catalog keys n) (key : OverloadKey) :
    (res.resolve key).2.Remembers catalog (insert key keys) n := by
  have hcached := h.cached key
  unfold Resolver.resolve
  by_cases hkey : key ∈ keys
  · rw [if_pos hkey] at hcached
    rw [hcached, Finset.insert_eq_of_mem hkey]
    exact h
  · rw [if_neg hkey] at hcached
    rw [hcached]
    have hcard : (insert key keys).card = keys.card + 1 := Finset.card_insert_of_notMem hkey
    refine ⟨h.catalog, fun other => ?_, ?_, ?_, h.dispatches⟩
    · by_cases hother : other = key
      · subst hother
        simp [Table.get?_insert_self, h.catalog]
      · simp [Table.get?_insert_of_ne _ hother, h.cached other, hother]
    · rw [Table.size_insert_of_get?_eq_none _ hcached, h.size, hcard]
    · rw [hcard, ← h.resolutions]

/-- A look-up gives what a search gives. -/
theorem lookup_fst (h : res.Remembers catalog keys n) (heap : Heap) (op : BinaryOp) (l r : Value) :
    (res.lookup heap op l r).1 = catalog.methodFor? heap op l r := by
  rw [Catalog.methodFor?_eq]
  unfold Resolver.lookup
  cases OverloadKey.of? heap op l r with
  | none => rfl
  | some key => exact h.resolve_fst key

/-- A look-up adds the key of its operands, if they have one. -/
theorem lookup_snd (h : res.Remembers catalog keys n) (heap : Heap) (op : BinaryOp) (l r : Value) :
    (res.lookup heap op l r).2.Remembers catalog
      ((OverloadKey.of? heap op l r).elim keys (insert · keys)) n := by
  unfold Resolver.lookup
  cases OverloadKey.of? heap op l r with
  | none => exact h
  | some key => exact h.resolve_snd key

/-- What is remembered of some keys is remembered in the same way of more keys. -/
theorem cached_mono {more : Finset OverloadKey} {k : Nat} {res' : Resolver}
    (h : res.Remembers catalog keys n) (h' : res'.Remembers catalog more k) (hsub : keys ⊆ more)
    {key : OverloadKey} {answer : Option OperatorMethod} (hkey : res.cache.get? key = some answer) :
    res'.cache.get? key = some answer := by
  rw [h.cached] at hkey
  split at hkey
  · next hmem => rw [h'.cached, if_pos (hsub hmem), hkey]
  · nomatch hkey

end Resolver.Remembers

/-! ### Look-ups and calls on a machine -/

namespace Eval

variable {m : Machine} {catalog : Catalog} {keys : Finset OverloadKey} {n : Nat} {res : Resolver}

/-- What is made of the value of an effect on the world may be made of it in the world. -/
theorem lift_map {α β : Type} (f : α → β) (x : Action α) :
    (do return f (← lift x) : Eval β) = lift (do return f (← x)) := by
  funext m
  change EStateM.bind (lift x) (fun a => pure (f a)) m = lift (EStateM.bind x fun a => pure (f a)) m
  unfold lift EStateM.bind
  dsimp only
  cases x m.world with
  | ok a w => rfl
  | error e w => rfl

/-- A look-up gives what a search gives, and the key of its operands is remembered. -/
theorem lookupMethod_of_remembers (hres : m.resolver? = some res)
    (h : res.Remembers catalog keys n) (op : BinaryOp) (l r : Value) :
    ∃ res', res'.Remembers catalog
        ((OverloadKey.of? m.world.heap op l r).elim keys (insert · keys)) n ∧
      lookupMethod op l r m =
        .ok (catalog.methodFor? m.world.heap op l r) { m with resolver? := some res' } := by
  refine ⟨_, h.lookup_snd m.world.heap op l r, ?_⟩
  rw [lookupMethod_of_some hres, h.lookup_fst]

/-- A call does what it does without a memory. The key of its operands is remembered, and the call
is counted if there is a method. -/
theorem dispatch?_of_remembers (hres : m.resolver? = some res) (h : res.Remembers catalog keys n)
    (s : Settings) (op : BinaryOp) (l r : Value) :
    ∃ res', res'.Remembers catalog
        ((OverloadKey.of? m.world.heap op l r).elim keys (insert · keys))
        (if (catalog.methodFor? m.world.heap op l r).isSome then n + 1 else n) ∧
      dispatch? s op l r m =
        lift (catalog.dispatch? s.host op l r) { m with resolver? := some res' } := by
  obtain ⟨res', hremembers, hlookup⟩ := lookupMethod_of_remembers hres h op l r
  have hdispatch : catalog.dispatch? s.host op l r m.world =
      (match catalog.methodFor? m.world.heap op l r with
        | some method => do return some (← method.invoke s.host l r)
        | none => return none : Action (Option Value)) m.world := rfl
  unfold lift
  dsimp only
  rw [hdispatch, dispatch?, bind_of_ok hlookup]
  cases catalog.methodFor? m.world.heap op l r with
  | none => exact ⟨res', hremembers, rfl⟩
  | some method =>
    refine ⟨res'.countDispatch, hremembers.countDispatch, ?_⟩
    exact congrFun (lift_map some (method.invoke s.host l r))
      { m with resolver? := some res'.countDispatch }

/-- An effect on the world leaves the operator methods alone. -/
theorem resolver?_after_lift {α : Type} (x : Action α) (m : Machine) :
    ((lift x).after m).resolver? = m.resolver? := by
  unfold after lift
  cases x m.world with
  | ok a w => rfl
  | error e w => rfl

end Eval

/-- A look-up of an operator method in some world, or a call of it. -/
structure OverloadCall where
  /-- The settings of the machine that makes the call. -/
  settings : Settings
  /-- The world in which it is made. -/
  world : World
  /-- The operator. -/
  operator : BinaryOp
  /-- The left operand. -/
  left : Value
  /-- The right operand. -/
  right : Value
  /-- Whether the method is called, or only looked up. -/
  dispatches : Bool

namespace OverloadCall

/-- The operator and the two operand types, if one operand is a host object and both have a type. -/
def key? (c : OverloadCall) : Option OverloadKey :=
  if (c.world.heap.hostObject? c.left).isSome ∨ (c.world.heap.hostObject? c.right).isSome then do
    some ⟨c.operator, ← OperandType.of? c.world.heap c.left, ← OperandType.of? c.world.heap c.right⟩
  else none

/-- The keys of the calls that have one. -/
def keys (calls : List OverloadCall) : Finset OverloadKey :=
  (calls.filterMap key?).toFinset

/-- The method that a search of the catalog finds. -/
def method? (catalog : Catalog) (c : OverloadCall) : Option OperatorMethod :=
  catalog.methodFor? c.world.heap c.operator c.left c.right

/-- Whether a method is found and called. -/
def invokes (catalog : Catalog) (c : OverloadCall) : Bool :=
  c.dispatches && (c.method? catalog).isSome

/-- The machine in the world of the call. -/
def prepare (c : OverloadCall) (m : Machine) : Machine :=
  { m with world := c.world }

/-- The look-up. -/
def lookup (c : OverloadCall) : Eval (Option OperatorMethod) :=
  lookupMethod c.operator c.left c.right

/-- The call. -/
def dispatch (c : OverloadCall) : Eval (Option Value) :=
  dispatch? c.settings c.operator c.left c.right

/-- The machine after the look-up or the call. -/
def perform (c : OverloadCall) (m : Machine) : Machine :=
  if c.dispatches then c.dispatch.after (c.prepare m) else c.lookup.after (c.prepare m)

end OverloadCall

/-- The machine after look-ups and calls. -/
def Machine.performAll (m : Machine) (calls : List OverloadCall) : Machine :=
  calls.foldl (fun m c => c.perform m) m

theorem OverloadCall.key?_eq (c : OverloadCall) :
    c.key? = OverloadKey.of? c.world.heap c.operator c.left c.right :=
  (OverloadKey.of?_eq ..).symm

/-- A call adds its key, if it has one, to those of the calls before it. -/
theorem OverloadCall.keys_concat (calls : List OverloadCall) (c : OverloadCall) :
    keys (calls ++ [c]) = c.key?.elim (keys calls) (insert · (keys calls)) := by
  unfold keys
  rw [List.filterMap_append, List.toFinset_append]
  cases hkey : c.key? with
  | none => simp [hkey]
  | some key => simp [hkey]

/-- A call adds one to the invocations before it exactly if it invokes a method. -/
theorem OverloadCall.countP_invokes_concat (catalog : Catalog) (calls : List OverloadCall)
    (c : OverloadCall) :
    (calls ++ [c]).countP (invokes catalog) =
      if c.invokes catalog then calls.countP (invokes catalog) + 1
      else calls.countP (invokes catalog) := by
  rw [List.countP_append, List.countP_singleton]
  split <;> rfl

/-- Performing one more call runs it on the machine the others leave. -/
theorem Machine.performAll_concat (m : Machine) (calls : List OverloadCall) (c : OverloadCall) :
    m.performAll (calls ++ [c]) = c.perform (m.performAll calls) :=
  List.foldl_concat ..

section Runs

variable {m : Machine} {catalog : Catalog} {keys : Finset OverloadKey} {n : Nat} {res : Resolver}

/-- One look-up or call: its key is remembered, and it is counted if a method is called. -/
theorem OverloadCall.remembers_perform (c : OverloadCall) (hres : m.resolver? = some res)
    (h : res.Remembers catalog keys n) :
    ∃ res', (c.perform m).resolver? = some res' ∧
      res'.Remembers catalog (c.key?.elim keys (insert · keys))
        (if c.invokes catalog then n + 1 else n) := by
  have hprepared : (c.prepare m).resolver? = some res := hres
  rw [c.key?_eq]
  unfold perform invokes
  cases c.dispatches with
  | false =>
    obtain ⟨res', hremembers, hlookup⟩ :=
      lookupMethod_of_remembers hprepared h c.operator c.left c.right
    refine ⟨res', ?_, hremembers⟩
    simp [after, lookup, hlookup]
  | true =>
    obtain ⟨res', hremembers, hdispatch⟩ :=
      dispatch?_of_remembers hprepared h c.settings c.operator c.left c.right
    refine ⟨res', ?_, hremembers⟩
    rw [if_pos rfl, after, dispatch, hdispatch]
    exact resolver?_after_lift ..

/-- Any look-ups and calls: exactly their keys are remembered, and the calls of methods counted. -/
theorem Machine.remembers_performAll (hres : m.resolver? = some (.ofCatalog catalog))
    (calls : List OverloadCall) :
    ∃ res, (m.performAll calls).resolver? = some res ∧
      res.Remembers catalog (OverloadCall.keys calls)
        (calls.countP (OverloadCall.invokes catalog)) := by
  induction calls using List.reverseRecOn with
  | nil => exact ⟨_, hres, .ofCatalog catalog⟩
  | append_singleton calls c ih =>
    obtain ⟨res, hres', hremembers⟩ := ih
    rw [m.performAll_concat, OverloadCall.keys_concat, OverloadCall.countP_invokes_concat]
    exact c.remembers_perform hres' hremembers

end Runs

/-- The memory of a resolver is transparent. Start with an empty one and make any look-ups and
calls, each in a world of its own. The catalog was then searched, and an answer stored, once for
each distinct key among them, the absence of a method included, and as many calls are counted as
found a method. Whatever is asked next, the look-up gives what a search of the catalog gives at that
moment, and the call does what it does after such a search; operands without a key change nothing.
And what is remembered stays as it is, whatever else is asked. -/
theorem overload_cache_transparent (catalog : Catalog) (m : Machine)
    (calls : List OverloadCall) :
    let m₁ := Machine.performAll { m with resolver? := some (.ofCatalog catalog) } calls;
    ∃ res, m₁.resolver? = some res ∧
      res.Remembers catalog (OverloadCall.keys calls)
        (calls.countP (OverloadCall.invokes catalog)) ∧
      (∀ c : OverloadCall,
        (∃ res', c.lookup (c.prepare m₁) =
          .ok (c.method? catalog) { c.prepare m₁ with resolver? := some res' }) ∧
        (∃ res', c.dispatch (c.prepare m₁) =
          lift (catalog.dispatch? c.settings.host c.operator c.left c.right)
            { c.prepare m₁ with resolver? := some res' }) ∧
        (c.key? = none → c.lookup (c.prepare m₁) = .ok none (c.prepare m₁) ∧
          c.dispatch (c.prepare m₁) = .ok none (c.prepare m₁))) ∧
      ∀ (more : List OverloadCall) (key : OverloadKey) (answer : Option OperatorMethod),
        res.cache.get? key = some answer →
          ∃ res', (m₁.performAll more).resolver? = some res' ∧
            res'.cache.get? key = some answer := by
  intro m₁
  obtain ⟨res, hres, hremembers⟩ := Machine.remembers_performAll
    (m := { m with resolver? := some (.ofCatalog catalog) }) rfl calls
  refine ⟨res, hres, hremembers, fun c => ⟨?_, ?_, fun hkey => ?_⟩,
    fun more key answer hanswer => ?_⟩
  · obtain ⟨res', _, hlookup⟩ :=
      lookupMethod_of_remembers (m := c.prepare m₁) hres hremembers c.operator c.left c.right
    exact ⟨res', hlookup⟩
  · obtain ⟨res', _, hdispatch⟩ := dispatch?_of_remembers (m := c.prepare m₁) hres hremembers
      c.settings c.operator c.left c.right
    exact ⟨res', hdispatch⟩
  · rw [c.key?_eq] at hkey
    have hlookup := lookupMethod_of_key (m := c.prepare m₁) hkey
    exact ⟨hlookup, dispatch?_of_lookupMethod hlookup c.settings⟩
  · -- a longer run is a run too, and answers depend on the key alone
    obtain ⟨res', hres', hremembers'⟩ := Machine.remembers_performAll
      (m := { m with resolver? := some (.ofCatalog catalog) }) rfl (calls ++ more)
    refine ⟨res', ?_, hremembers.cached_mono hremembers' ?_ hanswer⟩
    · rw [← hres']
      exact congrArg Machine.resolver? List.foldl_append.symm
    · unfold OverloadCall.keys
      rw [List.filterMap_append, List.toFinset_append]
      exact Finset.subset_union_left

end ScriptOps
