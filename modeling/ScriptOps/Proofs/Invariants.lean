import ScriptOps.Proofs.FailedAssignment
import ScriptOps.Proofs.Simulation

/-!
# Invariants of machines

An invariant is kept by the steps that evaluation is made of: steps on the world, writes to the
bindings, look-ups of operator methods, counting, and putting references in the pool and giving
their slots back. It is then kept by the evaluation of every tree, whether this comes to a value or
fails. The induction over trees is the one of `Eval.Simulation`, for the machine beside itself.
-/

namespace ScriptOps

open Eval

/-- What relates the machines of two outcomes relates the machines that the effects leave. -/
theorem Agree.after {α β : Type} {V : α → β → Prop} {E : Error → Error → Prop}
    {R : Machine → Machine → Prop} {x : Eval α} {y : Eval β} {m n : Machine}
    (h : Agree V E R (x m) (y n)) : R (x.after m) (y.after n) := by
  unfold Eval.after
  generalize x m = p at h ⊢
  generalize y n = q at h ⊢
  cases h with
  | ok _ hr => exact hr
  | error _ hr => exact hr

/-- A property of machines that all steps of evaluation keep but those on the pool. -/
structure Machine.Kept (I : Machine → Prop) : Prop where
  setWorld : ∀ {m : Machine} (world : World), I m → I { m with world }
  setEnv : ∀ {m : Machine} {env : Environment}, I m → m.env.Writes env → I { m with env }
  setResolver : ∀ {m : Machine} (resolver? : Option Resolver), I m → I { m with resolver? }
  setStats : ∀ {m : Machine} (stats : Stats), I m → I { m with stats }

/-- A property of machines that the steps of evaluation keep. -/
structure Machine.Invariant (I : Machine → Prop) : Prop extends Machine.Kept I where
  acquire : ∀ {m : Machine} (r : Reference), I m → I (m.acquire r).2
  release : ∀ {m : Machine} (id : RefId), I m → I (m.release id)

/-- The machine beside itself, with what is kept. -/
theorem Machine.Kept.steady {I : Machine → Prop} (h : Kept I) :
    Machine.Steady Eq fun m n => m = n ∧ I m where
  world hmn := congrArg Machine.world hmn.1
  env hmn := congrArg Machine.env hmn.1
  resolver hmn := congrArg Machine.resolver? hmn.1
  setWorld hmn hw := ⟨by rw [hmn.1, hw], h.setWorld _ hmn.2⟩
  setEnv hmn hwrite := ⟨by rw [hmn.1], h.setEnv hmn.2 hwrite⟩
  setResolver _ hmn := ⟨by rw [hmn.1], h.setResolver _ hmn.2⟩
  countBinary hmn := ⟨by rw [hmn.1], h.setStats _ hmn.2⟩
  countCompound hmn := ⟨by rw [hmn.1], h.setStats _ hmn.2⟩

namespace Machine.Invariant

variable {I : Machine → Prop} {m : Machine}

/-- An invariant is kept with one more reference in the pool. -/
theorem keepsPools (h : Invariant I) :
    Machine.KeepsPools fun _ : Unit => fun m n => m = n ∧ I m := by
  refine Machine.keepsPools_of_same ?_ ?_ ?_
  · rintro m n ⟨rfl, _⟩
    rfl
  · rintro m n r ⟨rfl, hm⟩
    exact ⟨rfl, h.acquire r hm⟩
  · rintro m n id ⟨rfl, hm⟩
    exact ⟨rfl, h.release id hm⟩

/-- Evaluation keeps invariants, whether it comes to a value or fails. -/
theorem evaluate (h : Invariant I) (s : Settings) (n : Node) (hm : I m) :
    I ((evaluate s n).after m) := by
  have hS := World.steady_eq s.host
  have hsim := Machine.Steady.simulation hS (fun _ => h.steady) h.keepsPools
  have hn := hsim.evaluate_self (fun _ _ _ => hS.observed _) n () ⟨rfl, hm⟩
  exact hn.after.2

end Machine.Invariant

end ScriptOps
