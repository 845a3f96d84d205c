import ScriptOps.Proofs.EnvironmentChain
import ScriptOps.Proofs.Invariants
import ScriptOps.Proofs.ReferencePools

/-!
# Evaluation and the pool of references

Evaluation does not depend on what else is in the pool, and leaves alone what others hold there:
with different references held in the two pools, two machines that are otherwise the same come to
the same outcome, and hold the same references as before. A machine whose bindings and whose pool
arose from the empty ones by their operations is again such a machine after every evaluation.
-/

namespace ScriptOps

open Eval

/-! ### Machines that arise by evaluation -/

/-- The bindings and the pool arose from the empty ones by their operations. -/
structure Machine.Reachable (m : Machine) : Prop where
  env : m.env.Reachable
  references : m.references.Reachable

namespace Machine.Reachable

variable {m : Machine}

/-- A machine starts without references. -/
theorem start (world : World) (catalog? : Option Catalog) {env : Environment}
    (h : env.Reachable) : (Machine.start world catalog? env).Reachable := by
  refine ⟨?_, .empty⟩
  unfold Machine.start
  dsimp only
  split
  · exact h
  · exact h.defineGlobal _ _ _

theorem acquire (h : m.Reachable) (r : Reference) : (m.acquire r).2.Reachable :=
  ⟨h.env, h.references.acquire r⟩

theorem release (h : m.Reachable) (id : RefId) : (m.release id).Reachable :=
  ⟨h.env, h.references.release id⟩

/-- What a write to the bindings leaves arose by their operations. -/
theorem write {env : Environment} (h : m.Reachable) (hwrite : m.env.Writes env) :
    env.Reachable := by
  cases hwrite with
  | setOwn id name v hset => exact h.env.setOwn id name v hset
  | defineOrAssign name v hset => exact h.env.defineOrAssign hset

/-- The steps that evaluation is made of keep machines reachable. -/
theorem invariant : Machine.Invariant Machine.Reachable where
  setWorld _ h := ⟨h.env, h.references⟩
  setEnv h hwrite := ⟨h.write hwrite, h.references⟩
  setResolver _ h := ⟨h.env, h.references⟩
  setStats _ h := ⟨h.env, h.references⟩
  acquire r h := h.acquire r
  release id h := h.release id

/-- Evaluation keeps machines reachable, whether it comes to a value or fails. -/
theorem evaluate (h : m.Reachable) (s : Settings) (n : Node) :
    ((evaluate s n).after m).Reachable :=
  invariant.evaluate s n h

end Machine.Reachable

/-! ### Machines that differ in their pools -/

/-- The same world, operator methods, bindings and references in progress. The empty slots of the
pools and the counters may differ. -/
structure Machine.Equivalent (m n : Machine) : Prop where
  world : m.world = n.world
  resolver : m.resolver? = n.resolver?
  env : m.env = n.env
  references : ∀ id, m.references.get? id = n.references.get? id

/-- Machines that are the same but for their pools, with what these hold. -/
structure Machine.Apart (live : (RefId → Option Reference) × (RefId → Option Reference))
    (m n : Machine) : Prop where
  world : m.world = n.world
  resolver : m.resolver? = n.resolver?
  env : m.env = n.env
  left : m.references.Holds live.1
  right : n.references.Holds live.2

namespace Machine.Apart

variable {live : (RefId → Option Reference) × (RefId → Option Reference)} {m n : Machine}

/-- A machine is apart from itself, by what its pool holds. -/
theorem refl (h : m.Reachable) : Apart (m.references.get?, m.references.get?) m m :=
  ⟨rfl, rfl, rfl, ⟨h.references.valid, fun _ => rfl⟩, ⟨h.references.valid, fun _ => rfl⟩⟩

/-- Machines that hold the same are equivalent. -/
theorem equivalent {held : RefId → Option Reference} (h : Apart (held, held) m n) :
    m.Equivalent n :=
  ⟨h.world, h.resolver, h.env, fun id => (h.left.get? id).trans (h.right.get? id).symm⟩

/-- Machines stay apart under what both do to the world, the bindings and the methods. -/
theorem steady (live : (RefId → Option Reference) × (RefId → Option Reference)) :
    Machine.Steady Eq (Apart live) where
  world h := h.world
  env h := h.env
  resolver h := h.resolver
  setWorld h hw := { h with world := hw }
  setEnv h _ := { h with env := rfl }
  setResolver _ h := { h with resolver := rfl }
  countBinary h := { h with }
  countCompound h := { h with }

/-- Reading slots that hold the same reference. -/
theorem pooled {id id' : RefId} {r : Reference} (hleft : live.1 id = some r)
    (hright : live.2 id' = some r) : Matches Eq Eq (Apart live) (pooled id) (pooled id') := by
  intro m n hmn
  rw [pooled_eq, pooled_eq, hmn.left.get? id, hmn.right.get? id', hleft, hright]
  exact .ok rfl hmn

variable {left right : RefId → Option Reference}

/-- A reference is put into the left pool. -/
theorem acquireLeft (h : Apart (left, right) m n) (r : Reference) :
    Apart (Function.update left (m.acquire r).1 (some r), right) (m.acquire r).2 n :=
  ⟨h.world, h.resolver, h.env, h.left.acquire r, h.right⟩

/-- A reference is put into the right pool. -/
theorem acquireRight (h : Apart (left, right) m n) (r : Reference) :
    Apart (left, Function.update right (n.acquire r).1 (some r)) m (n.acquire r).2 :=
  ⟨h.world, h.resolver, h.env, h.left, h.right.acquire r⟩

/-- A slot of the left pool is given back. -/
theorem releaseLeft {id : RefId} {r : Reference} (hfree : left id = none)
    (h : Apart (Function.update left id (some r), right) m n) :
    Apart (left, right) (m.release id) n :=
  ⟨h.world, h.resolver, h.env, h.left.release hfree, h.right⟩

/-- A slot of the right pool is given back. -/
theorem releaseRight {id : RefId} {r : Reference} (hfree : right id = none)
    (h : Apart (left, Function.update right id (some r)) m n) :
    Apart (left, right) m (n.release id) :=
  ⟨h.world, h.resolver, h.env, h.left, h.right.release hfree⟩

section WithReference

variable {α β : Type} {V : α → β → Prop} {E : Error → Error → Prop} {r : Reference}
  {x : RefId → Eval α} {y : RefId → Eval β} {outcome : EStateM.Result Error Machine β}

/-- An evaluation that holds a reference meanwhile, beside one that does not. -/
theorem withReferenceLeft (hmn : Apart (left, right) m n)
    (hbody : Agree V E (Apart (Function.update left (m.acquire r).1 (some r), right))
      (x (m.acquire r).1 (m.acquire r).2) outcome) :
    Agree V E (Apart (left, right)) (withReference r x m) outcome := by
  have hfree : left (m.acquire r).1 = none :=
    (hmn.left.get? _).symm.trans (hmn.left.valid.get?_fresh r)
  exact Agree.withReferenceLeft hbody fun m' n' h => h.releaseLeft hfree

/-- Two evaluations that hold a reference meanwhile. -/
theorem withReference (hmn : Apart (left, right) m n)
    (hbody : Agree V E (Apart (Function.update left (m.acquire r).1 (some r),
      Function.update right (n.acquire r).1 (some r)))
      (x (m.acquire r).1 (m.acquire r).2) (y (n.acquire r).1 (n.acquire r).2)) :
    Agree V E (Apart (left, right)) (withReference r x m) (withReference r y n) := by
  have hleft : left (m.acquire r).1 = none :=
    (hmn.left.get? _).symm.trans (hmn.left.valid.get?_fresh r)
  have hright : right (n.acquire r).1 = none :=
    (hmn.right.get? _).symm.trans (hmn.right.valid.get?_fresh r)
  exact Agree.withReference hbody fun m' n' h => (h.releaseLeft hleft).releaseRight hright

end WithReference

/-- A reference that both hold while a step runs leaves them apart. -/
theorem keepsPools : Machine.KeepsPools Apart := by
  rintro ⟨left, right⟩ r α x y hxy m n hmn
  refine hmn.withReference (hxy _ _ _ (pooled (r := r) ?_ ?_)
    ((hmn.acquireLeft r).acquireRight r))
  · exact Function.update_self ..
  · exact Function.update_self ..

/-- Evaluation comes to the same outcome whatever the pools hold, and leaves in them what they hold.
-/
theorem evaluate (s : Settings) (n : Node) :
    Matches Eq Eq (Apart live) (evaluate s n) (evaluate s n) :=
  (Machine.Steady.simulation (World.steady_eq s.host) steady keepsPools).evaluate_self
    (fun _ _ _ => (World.steady_eq s.host).observed _) n live

end Machine.Apart

end ScriptOps
