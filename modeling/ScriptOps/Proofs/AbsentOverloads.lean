import ScriptOps.Proofs.OverloadCache
import ScriptOps.Proofs.Simulation

/-!
# Operator methods that do not apply

A resolver that finds no method cannot be told from having no resolver: a look-up without an answer
changes nothing but the memory of the resolver, and the operator then does what it does on its own.
`Machine.Bare` relates a machine that has such a resolver to the same machine without it, and the
induction over trees carries this through every evaluation. Where neither operand is a host object
not even the memory changes, whatever methods are declared.
-/

namespace ScriptOps

open Eval

/-! ### Catalogs without a method -/

/-- The states that a resolver for a catalog reaches. -/
inductive Resolver.Reachable (c : Catalog) : Resolver → Prop where
  | ofCatalog : Reachable c (.ofCatalog c)
  | lookup {res : Resolver} (h : Heap) (op : BinaryOp) (l r : Value) :
    Reachable c res → Reachable c (res.lookup h op l r).2
  | countDispatch {res : Resolver} : Reachable c res → Reachable c res.countDispatch

/-- Such a resolver remembers what the catalog gives. -/
theorem Resolver.Reachable.remembers {c : Catalog} {res : Resolver} (h : res.Reachable c) :
    ∃ keys n, res.Remembers c keys n := by
  induction h with
  | ofCatalog => exact ⟨∅, 0, .ofCatalog c⟩
  | lookup heap op l r _ ih =>
    obtain ⟨keys, n, hremembers⟩ := ih
    exact ⟨_, n, hremembers.lookup_snd heap op l r⟩
  | countDispatch _ ih =>
    obtain ⟨keys, n, hremembers⟩ := ih
    exact ⟨keys, n + 1, hremembers.countDispatch⟩

/-- No method is declared that applies to any operands of the operators that host types overload. -/
def Catalog.IsAbsent (c : Catalog) : Prop :=
  ∀ op, isOverloadable op → ∀ left right, c.bestMatch? op left right = none

/-- Then no search finds a method. -/
theorem Catalog.IsAbsent.methodFor?_eq {c : Catalog} (hc : c.IsAbsent) {op : BinaryOp}
    (hop : isOverloadable op) (h : Heap) (l r : Value) : c.methodFor? h op l r = none := by
  unfold Catalog.methodFor?
  split
  · cases OperandType.of? h l with
    | none => rfl
    | some left =>
      cases OperandType.of? h r with
      | none => rfl
      | some right => exact hc op hop left right
  · rfl

/-- Without a method that accepts the operands there is no best one. -/
theorem Catalog.bestMatch?_eq_none {c : Catalog} {op : BinaryOp} {left right : OperandType}
    (h : ∀ m ∈ c.candidates op left right, m.cost? left right = none) :
    c.bestMatch? op left right = none := by
  unfold Catalog.bestMatch?
  generalize c.candidates op left right = methods at h
  induction methods with
  | nil => rfl
  | cons m rest ih =>
    have hbetter : Catalog.better left right none m = none := by
      unfold Catalog.better
      rw [h m List.mem_cons_self]
    rw [List.foldl_cons, hbetter]
    exact ih fun m' hm' => h m' (List.mem_cons_of_mem m hm')

/-- Methods are taken from the types of the operands, so a method without a parameter for a host
object never applies. -/
theorem Catalog.isAbsent_of_cost? {c : Catalog} (h : ∀ m ∈ c.methods, ∀ t : HostTypeId,
    m.left.cost? (.host t) = none ∧ m.right.cost? (.host t) = none) : c.IsAbsent := by
  intro op _ left right
  refine Catalog.bestMatch?_eq_none fun m hm => ?_
  obtain ⟨t, ht, hmt⟩ := List.mem_flatMap.mp hm
  have hmem : m ∈ c.methods := List.mem_of_mem_filter hmt
  unfold OperatorMethod.cost?
  cases left with
  | host u => simp [(h m hmem u).1]
  | number | string | boolean =>
    cases right with
    | host u => simp [(h m hmem u).2]
    | number | string | boolean => nomatch ht

/-! ### Operators without a method -/

/-- Where no method is called, the operator does what it does on its own. -/
theorem Eval.operate_of_absent {s : Settings} {op : BinaryOp} {l r : Value} {m m' : Machine}
    (h : isOverloadable op → dispatch? s op l r m = .ok none m')
    (hm : ¬isOverloadable op → m' = m) :
    operate s op l r m = lift (op.evaluate s.host l r) m' := by
  unfold operate
  by_cases hop : isOverloadable op
  · rw [if_pos hop]
    exact bind_of_ok (h hop)
  · rw [if_neg hop, hm hop]
    rfl

/-- Without a resolver an operator does what it does on its own. -/
theorem Eval.operate_of_none (s : Settings) (op : BinaryOp) (l r : Value) {m : Machine}
    (hres : m.resolver? = none) : operate s op l r m = lift (op.evaluate s.host l r) m :=
  operate_of_absent (fun _ => dispatch?_of_lookupMethod (lookupMethod_of_none hres op l r) s)
    fun _ => rfl

/-- So it does on operands without a host object among them. -/
theorem Eval.operate_of_key (s : Settings) {op : BinaryOp} {l r : Value} {m : Machine}
    (hkey : OverloadKey.of? m.world.heap op l r = none) :
    operate s op l r m = lift (op.evaluate s.host l r) m :=
  operate_of_absent (fun _ => dispatch?_of_lookupMethod (lookupMethod_of_key hkey) s) fun _ => rfl

/-! ### Machines with and without a resolver -/

/-- The same machine without its resolver, which has been used with this catalog. -/
structure Machine.Bare (c : Catalog) (m n : Machine) : Prop where
  eq : n = { m with resolver? := none }
  resolver : ∃ res, m.resolver? = some res ∧ res.Reachable c

namespace Machine.Bare

variable {c : Catalog} {m n : Machine}

/-- Machines that are bare of overloads are coupled by equality of their worlds. -/
theorem coupled (c : Catalog) : Machine.Coupled Eq (Bare c) where
  world h := by rw [h.eq]
  env h := by rw [h.eq]
  setWorld h hw := ⟨by rw [h.eq, hw], h.resolver⟩
  setEnv h _ := ⟨by rw [h.eq], h.resolver⟩
  countBinary h := ⟨by rw [h.eq], h.resolver⟩
  countCompound h := ⟨by rw [h.eq], h.resolver⟩

/-- They have the same references in progress. -/
theorem references (h : Bare c m n) : m.references = n.references := by
  rw [h.eq]

/-- They stay so when each takes the same reference in. -/
theorem acquire (r : Reference) (h : Bare c m n) : Bare c (m.acquire r).2 (n.acquire r).2 :=
  ⟨by rw [h.eq]; rfl, h.resolver⟩

/-- They stay so when each gives the same slot back. -/
theorem release (id : RefId) (h : Bare c m n) : Bare c (m.release id) (n.release id) :=
  ⟨by rw [h.eq]; rfl, h.resolver⟩

/-- The resolver is asked in vain, and the operator goes on as without it. -/
theorem operate (hc : c.IsAbsent) (s : Settings) (op : BinaryOp) (l r : Value) :
    Matches Eq Eq (Bare c) (operate s op l r) (operate s op l r) := by
  intro m n hmn
  have hbare : n.resolver? = none := by rw [hmn.eq]
  rw [operate_of_none s op l r hbare]
  obtain ⟨res, hres, hreachable⟩ := hmn.resolver
  have hlift {m' : Machine} (h : Bare c m' n) :
      Agree Eq Eq (Bare c) (lift (op.evaluate s.host l r) m') (lift (op.evaluate s.host l r) n) :=
    (coupled c).lift ((World.steady_eq s.host).closed.evaluate op l r) h
  by_cases hop : isOverloadable op
  · obtain ⟨keys, k, hremembers⟩ := hreachable.remembers
    have hlookup := lookupMethod_of_some hres op l r
    rw [hremembers.lookup_fst, hc.methodFor?_eq hop] at hlookup
    rw [operate_of_absent (fun _ => dispatch?_of_lookupMethod hlookup s) fun h => absurd hop h]
    exact hlift ⟨hmn.eq, _, rfl, hreachable.lookup m.world.heap op l r⟩
  · rw [operate_of_absent (fun h => absurd h hop) fun _ => rfl]
    exact hlift hmn

/-- Evaluations with and without the resolver come to the same. -/
theorem evaluate (hc : c.IsAbsent) (s : Settings) (n : Node) :
    Matches Eq Eq (Bare c) (evaluate s n) (evaluate s n) := by
  have hS := World.steady_eq s.host
  have hpools : Machine.KeepsPools fun _ : Unit => Bare c :=
    Machine.keepsPools_of_same (fun _ _ h => h.references) (fun _ _ r h => h.acquire r)
      fun _ _ id h => h.release id
  have hsim := Machine.Coupled.simulation hS (fun _ => coupled c) (fun _ => operate hc s) hpools
  exact hsim.evaluate_self (fun _ _ _ => hS.observed _) n ()

end Machine.Bare

/-- Operator methods that do not apply are invisible. With a catalog that has no method for any
operands, in whatever state its resolver is, every tree comes to the same value or error as without
a resolver, and leaves the same world, bindings, pool and counters. And with any catalog, an
operator on operands without a host object among them comes to the same as without a resolver, and
leaves the resolver as it was. -/
theorem absent_overloads_invisible (s : Settings) :
    (∀ (c : Catalog) (m : Machine) (res : Resolver), c.IsAbsent → m.resolver? = some res →
      res.Reachable c → ∀ n : Node,
        Agree Eq Eq (fun m' n' => n' = { m' with resolver? := none })
          (evaluate s n m) (evaluate s n { m with resolver? := none })) ∧
    ∀ (m : Machine) (op : BinaryOp) (l r : Value),
      m.world.heap.hostObject? l = none → m.world.heap.hostObject? r = none →
        Agree Eq Eq (fun m' n' => m' = { n' with resolver? := m.resolver? })
          (operate s op l r m) (operate s op l r { m with resolver? := none }) := by
  constructor
  · intro c m res hc hm hres n
    have hbare : Machine.Bare c m { m with resolver? := none } := ⟨rfl, res, hm, hres⟩
    exact (Machine.Bare.evaluate hc s n hbare).mono (fun _ _ h => h) (fun _ _ h => h)
      fun _ _ h => h.eq
  · intro m op l r hl hr
    have hkey := OverloadKey.of?_eq_none hl hr op
    rw [operate_of_key s hkey, operate_of_none s op l r rfl]
    unfold lift
    dsimp only
    cases op.evaluate s.host l r m.world with
    | ok v w => exact .ok rfl rfl
    | error e w => exact .error rfl rfl

/-- A method whose parameters are numbers never takes an object of the type that declares it. The
sum of two such objects is looked up a second time, and both sums are their texts. -/
theorem absent_overloads_invisible_misdeclared :
    let t : HostTypeId := ⟨0⟩
    let c : Catalog := ⟨[⟨.add, t, .number, .number, 0⟩]⟩
    let heap : Heap := ⟨#[.ofKind (.host ⟨⟨t, "Meters"⟩, none, fun _ => none, 0⟩)]⟩
    let x : Value := .object ⟨0⟩
    let res := ((Resolver.ofCatalog c).lookup heap .add x x).2
    let m : Machine := { Machine.start ⟨heap, []⟩ none .empty with resolver? := some res }
    let n : Node := .binary .add (.constant x) (.constant x) ⟨0, 5⟩
    c.IsAbsent ∧ res.resolutions = 1 ∧ ∀ s : Settings,
      Agree Eq Eq (fun m' n' => n' = { m' with resolver? := none })
        (evaluate s n m) (evaluate s n { m with resolver? := none }) := by
  intro t c heap x res m n
  have hc : c.IsAbsent := by
    refine Catalog.isAbsent_of_cost? fun method hmethod u => ?_
    rw [List.mem_singleton.mp hmethod]
    exact ⟨rfl, rfl⟩
  have hres : res.Reachable c := .lookup heap .add x x .ofCatalog
  exact ⟨hc, rfl, fun s => (absent_overloads_invisible s).1 c m res hc rfl hres n⟩

end ScriptOps
