import ScriptOps.Machine
import ScriptOps.Proofs.Agreement

/-!
# Looking operator methods up

Operands have a key if one of them is a host object and both have a type. Without a key there is no
method, and the machine stays as it is; so it does without a resolver.
-/

namespace ScriptOps

/-! ### Keys -/

/-- The type of an operand is that of a host object exactly if the operand is one. -/
theorem OperandType.isSome_hostType? {h : Heap} {v : Value} {t : OperandType}
    (ht : OperandType.of? h v = some t) : t.hostType?.isSome = (h.hostObject? v).isSome := by
  cases v with
  | primitive p =>
    cases p with
    | undefined | null => nomatch ht
    | bool | int | number | str =>
      cases ht
      rfl
  | object id =>
    rw [OperandType.of?, Option.map_eq_some_iff] at ht
    obtain ⟨o, ho, rfl⟩ := ht
    rw [Heap.hostObject?, ho]
    rfl

/-- Two operands have a key if one of them is a host object and both have a type. -/
theorem OverloadKey.of?_eq (h : Heap) (op : BinaryOp) (l r : Value) :
    OverloadKey.of? h op l r =
      if (h.hostObject? l).isSome ∨ (h.hostObject? r).isSome then do
        some ⟨op, ← OperandType.of? h l, ← OperandType.of? h r⟩
      else none := by
  unfold OverloadKey.of?
  cases hl : OperandType.of? h l with
  | none => simp
  | some left =>
    cases hr : OperandType.of? h r with
    | none => simp
    | some right =>
      have hleft := OperandType.isSome_hostType? hl
      have hright := OperandType.isSome_hostType? hr
      simp only [← hleft, ← hright, Option.bind_eq_bind, Option.bind_some, Bool.or_eq_true]

/-- Operands without a host object among them have no key. -/
theorem OverloadKey.of?_eq_none {h : Heap} {l r : Value} (hl : h.hostObject? l = none)
    (hr : h.hostObject? r = none) (op : BinaryOp) : OverloadKey.of? h op l r = none := by
  rw [OverloadKey.of?_eq, hl, hr]
  exact if_neg (by simp)

/-! ### Look-ups -/

namespace Eval

variable {m : Machine}

/-- A look-up asks the resolver of the machine. -/
theorem lookupMethod_of_some {res : Resolver} (hres : m.resolver? = some res) (op : BinaryOp)
    (l r : Value) :
    lookupMethod op l r m = .ok (res.lookup m.world.heap op l r).1
      { m with resolver? := some (res.lookup m.world.heap op l r).2 } := by
  refine (bind_of_ok (show (get : Eval Machine) m = .ok m m from rfl)).trans ?_
  rw [hres]
  rfl

/-- Without a resolver there is no method. -/
theorem lookupMethod_of_none (hres : m.resolver? = none) (op : BinaryOp) (l r : Value) :
    lookupMethod op l r m = .ok none m := by
  refine (bind_of_ok (show (get : Eval Machine) m = .ok m m from rfl)).trans ?_
  rw [hres]
  rfl

/-- Without a key there is no method, and the resolver stays as it is. -/
theorem lookupMethod_of_key {op : BinaryOp} {l r : Value}
    (hkey : OverloadKey.of? m.world.heap op l r = none) : lookupMethod op l r m = .ok none m := by
  cases hres : m.resolver? with
  | none => exact lookupMethod_of_none hres op l r
  | some res =>
    have hlookup : res.lookup m.world.heap op l r = (none, res) := by
      rw [Resolver.lookup, hkey]
    rw [lookupMethod_of_some hres, hlookup, ← hres]

/-- Where a look-up finds no method there is no call. -/
theorem dispatch?_of_lookupMethod {m' : Machine} {op : BinaryOp} {l r : Value}
    (h : lookupMethod op l r m = .ok none m') (s : Settings) :
    dispatch? s op l r m = .ok none m' :=
  bind_of_ok h

end Eval

end ScriptOps
