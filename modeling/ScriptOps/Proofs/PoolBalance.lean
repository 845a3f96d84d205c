import ScriptOps.Proofs.PoolIsolation

/-!
# Evaluation gives back what it takes from the pool

Whatever an evaluation does, with assignments, calls and patterns nested to any depth, and whether
it comes to a value or fails: every slot of the pool holds afterwards what it held before. So as
many slots are in use as before, and none in a machine that has just started.

While an assignment evaluates its right-hand side, this holds of its own slot. What it reads and
writes through the slot is therefore the reference that it put there: the assignment does what it
would do with that reference in hand.
-/

namespace ScriptOps

open Eval

/-! ### What the pool holds after an evaluation -/

namespace Machine

variable {m : Machine} {live : RefId → Option Reference}

/-- Evaluation leaves in the pool what it holds. -/
theorem holds_evaluate (s : Settings) (n : Node) (h : m.references.Holds live) :
    ((evaluate s n).after m).references.Holds live := by
  have hapart : Apart (live, live) m m := ⟨rfl, rfl, rfl, h, h⟩
  exact (Apart.evaluate s n hapart).after.left

/-- The pool arose from the empty one, and so it does after every evaluation. -/
theorem invariant_reachable_references : Invariant fun m => m.references.Reachable where
  setWorld _ h := h
  setEnv h _ := h
  setResolver _ h := h
  setStats _ h := h
  acquire r h := h.acquire r
  release id h := h.release id

/-- After an evaluation as many slots are in use as before. -/
theorem inUse_evaluate (s : Settings) (n : Node) (h : m.references.Valid) :
    ((evaluate s n).after m).references.inUse = m.references.inUse := by
  have hheld := holds_evaluate s n ⟨h, fun _ => rfl⟩
  exact hheld.valid.inUse_congr h hheld.get?

/-- The machine after evaluations one after the other, each of which may fail. -/
def evaluateEach (s : Settings) (m : Machine) (ns : List Node) : Machine :=
  ns.foldl (fun m n => (evaluate s n).after m) m

/-- Evaluating any sequence of trees leaves the number of references in use. -/
theorem inUse_evaluateEach (s : Settings) (ns : List Node) (h : m.references.Reachable) :
    (m.evaluateEach s ns).references.inUse = m.references.inUse := by
  induction ns generalizing m with
  | nil => rfl
  | cons n rest ih =>
    have hnext := invariant_reachable_references.evaluate s n h
    exact (ih hnext).trans (inUse_evaluate s n h.valid)

end Machine

/-! ### Assignments with and without the pool -/

/-- A machine beside itself, with what its pool holds. -/
def Machine.Holding (live : RefId → Option Reference) (m n : Machine) : Prop :=
  m = n ∧ m.references.Holds live

namespace Machine.Holding

variable {live : RefId → Option Reference}

/-- Everything but the pool may change. -/
theorem steady (live : RefId → Option Reference) : Machine.Steady Eq (Holding live) :=
  Machine.Kept.steady
    { setWorld := fun _ h => h
      setEnv := fun h _ => h
      setResolver := fun _ h => h
      setStats := fun _ h => h }

/-- Outcomes that agree on the machine are the same. -/
theorem eq_of_agree {α : Type} {p q : EStateM.Result Error Machine α}
    (h : Agree Eq Eq (Holding live) p q) : p = q := by
  cases h with
  | ok hv hm => rw [hv, hm.1]
  | error he hm => rw [he, hm.1]

/-- A tree comes to the same as itself, and the pool holds what it did. -/
theorem evaluate (s : Settings) (n : Node) :
    Matches Eq Eq (Holding live) (evaluate s n) (evaluate s n) := by
  rintro m _ ⟨rfl, hm⟩
  have hheld := holds_evaluate s n hm
  unfold after at hheld
  generalize ScriptOps.evaluate s n m = outcome at hheld ⊢
  cases outcome with
  | ok v m' => exact .ok rfl ⟨rfl, hheld⟩
  | error e m' => exact .error rfl ⟨rfl, hheld⟩

variable {id : RefId} {r : Reference}

/-- What is done with the reference in a slot is done with the reference that is held there. -/
theorem pooled_bind {α : Type} (hlive : live id = some r) {f : Reference → Eval α}
    (hf : Matches Eq Eq (Holding live) (f r) (f r)) :
    Matches Eq Eq (Holding live) (pooled id >>= f) (f r) := by
  rintro m _ ⟨rfl, hm⟩
  rw [Eval.pooled_bind, hm.get? id, hlive]
  exact hf ⟨rfl, hm⟩

/-- An assignment through a slot is an assignment to the reference that is held there. -/
theorem assignThrough (s : Settings) (op : AssignOp) (n : Node) (hlive : live id = some r) :
    Matches Eq Eq (Holding live) (assignThrough s op (ScriptOps.evaluate s n) id)
      (assignBy s op (ScriptOps.evaluate s n) r.read (r.write s)) := by
  have hS := World.steady_eq s.host
  have hread : Matches Eq Eq (Holding live) (getValue id) r.read :=
    pooled_bind hlive ((steady live).read hS r)
  have hwrite (v : Value) : Matches Eq Eq (Holding live) (putValue s id v) (r.write s v) :=
    pooled_bind hlive ((steady live).write hS s r v)
  rw [assignThrough_eq_assignBy]
  exact assignBy_related (M := fun _ x y => Matches Eq Eq (Holding live) x y)
    (fun _ => Matches.pure rfl) (fun hx hf => hx.bind fun a _ hab => hab ▸ hf a)
    (evaluate s n) hread hwrite (Matches.modify fun _ _ hmn => (steady live).countCompound hmn)
    ((steady live).operate hS)

end Machine.Holding

/-- References in progress are balanced and isolated. In every machine whose pool arose by its
operations, evaluation leaves as many slots in use as before, and each slot with what it held; so no
slot is in use after any evaluations of a machine that has just started. While an assignment that
put `r` into a slot is in progress, the slot holds `r` whatever the right-hand side evaluates, a
write through the slot writes `r`, and the assignment is the one that reads and writes `r`
itself. -/
theorem references_balanced (s : Settings) (n : Node) {m : Machine}
    (h : m.references.Reachable) :
    (((evaluate s n).after m).references.inUse = m.references.inUse ∧
      ((evaluate s n).after m).references.Reachable ∧
        ∀ id, ((evaluate s n).after m).references.get? id = m.references.get? id) ∧
    (∀ (world : World) (catalog? : Option Catalog) (env : Environment) (ns : List Node),
      ((Machine.start world catalog? env).evaluateEach s ns).references.inUse = 0) ∧
    ∀ r : Reference,
      let id := (m.acquire r).1
      let m₁ := (m.acquire r).2
      let m₂ := (evaluate s n).after m₁;
      m₂.references.get? id = some r ∧
        (∀ v, putValue s id v m₂ = r.write s v m₂) ∧
        ∀ op, assignThrough s op (evaluate s n) id m₁ =
          assignBy s op (evaluate s n) r.read (r.write s) m₁ := by
  refine ⟨⟨?_, ?_, ?_⟩, ?_, fun r => ?_⟩
  · exact Machine.inUse_evaluate s n h.valid
  · exact Machine.invariant_reachable_references.evaluate s n h
  · exact (Machine.holds_evaluate s n ⟨h.valid, fun _ => rfl⟩).get?
  · intro world catalog? env ns
    exact Machine.inUse_evaluateEach s ns .empty
  · have hheld : (m.acquire r).2.references.Holds
        (Function.update m.references.get? (m.acquire r).1 (some r)) :=
      ReferencePool.Holds.acquire ⟨h.valid, fun _ => rfl⟩ r
    have hlive : Function.update m.references.get? (m.acquire r).1 (some r) (m.acquire r).1 =
        some r := Function.update_self ..
    have hafter := ((Machine.holds_evaluate s n hheld).get? _).trans hlive
    refine ⟨hafter, fun v => ?_, fun op => ?_⟩
    · rw [putValue_eq, pooled_bind, hafter]
    · exact Machine.Holding.eq_of_agree (Machine.Holding.assignThrough s op n hlive ⟨rfl, hheld⟩)

/-- The nested assignment `x += (x = "b")`, in a machine that holds a reference already. -/
theorem references_balanced_nested :
    let m : Machine :=
      ((Machine.start ⟨.empty, []⟩ none (.define .empty "x" (.str "a") .mutable)).acquire
        (.unresolvable "y")).2
    let n : Node := .assign .add (.identifier "x")
      (.assign .assign (.identifier "x") (.constant (.str "b")) ⟨6, 13⟩) ⟨0, 14⟩
    m.references.Reachable ∧ ∀ s : Settings,
      ((evaluate s n).after m).references.inUse = 1 ∧
        ((evaluate s n).after m).references.get? ⟨0⟩ = some (.unresolvable "y") := by
  intro m n
  have hm : m.references.Reachable := .acquire (.unresolvable "y") .empty
  refine ⟨hm, fun s => ?_⟩
  obtain ⟨⟨hinUse, _, hget⟩, _⟩ := references_balanced s n hm
  exact ⟨hinUse, hget ⟨0⟩⟩

end ScriptOps
