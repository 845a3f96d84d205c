import ScriptOps.Proofs.CompoundAssignment
import ScriptOps.Proofs.Contracts

/-!
# Direct assignments to names

A plain assignment to a name writes the scope that the name was resolved to, and takes no slot of
the pool. Every other assignment to a name puts a reference into the pool and writes through it. A
plain assignment could go that way as well: the two come to the same outcome, because both resolve
the name before the right-hand side is evaluated, the right-hand side does not see the pool, and the
reference in the slot writes where the direct write does. Only the count of references tells them
apart.

`Machine.ApartBy` is `Machine.Apart` with the counters: evaluation counts the same on both sides.
-/

namespace ScriptOps

open Eval

/-- The same but for the empty slots of the pools; the left machine has counted `k` references more.
-/
structure Machine.Ahead (k : Nat) (m n : Machine) : Prop extends Machine.Equivalent m n where
  stats : m.stats = { n.stats with referencesAcquired := n.stats.referencesAcquired + k }

/-- Machines that are the same but for their pools, with what these hold and with the number of
references that the left one has counted more. -/
structure Machine.ApartBy (k : Nat) (live : (RefId → Option Reference) × (RefId → Option Reference))
    (m n : Machine) : Prop extends Machine.Apart live m n where
  stats : m.stats = { n.stats with referencesAcquired := n.stats.referencesAcquired + k }

namespace Machine.ApartBy

variable {k : Nat} {live : (RefId → Option Reference) × (RefId → Option Reference)}
  {left right : RefId → Option Reference} {m n : Machine}

/-- A machine is apart from itself by nothing. -/
theorem refl (h : m.references.Valid) : ApartBy 0 (m.references.get?, m.references.get?) m m :=
  ⟨⟨rfl, rfl, rfl, ⟨h, fun _ => rfl⟩, ⟨h, fun _ => rfl⟩⟩, rfl⟩

/-- Machines that are apart by a number of references are ahead by that number. -/
theorem ahead {held : RefId → Option Reference} (h : ApartBy k (held, held) m n) : m.Ahead k n :=
  ⟨h.equivalent, h.stats⟩

/-- Being apart by a number of references is kept by what leaves pools and counters alone. -/
theorem steady (k : Nat) (live : (RefId → Option Reference) × (RefId → Option Reference)) :
    Machine.Steady Eq (ApartBy k live) where
  world h := h.world
  env h := h.env
  resolver h := h.resolver
  setWorld h hw := { h with world := hw }
  setEnv h _ := { h with env := rfl }
  setResolver _ h := { h with resolver := rfl }
  countBinary h := { h with stats := by rw [h.stats] }
  countCompound h := { h with stats := by rw [h.stats] }

/-- A reference is put into each pool, and both are counted. -/
theorem acquire (h : ApartBy k (left, right) m n) (r : Reference) :
    ApartBy k (Function.update left (m.acquire r).1 (some r),
      Function.update right (n.acquire r).1 (some r)) (m.acquire r).2 (n.acquire r).2 := by
  refine ⟨(h.acquireLeft r).acquireRight r, ?_⟩
  simp only [Machine.acquire, h.stats, Nat.add_right_comm]

/-- A reference is put into the left pool, and counted. -/
theorem acquireLeft (h : ApartBy k (left, right) m n) (r : Reference) :
    ApartBy (k + 1) (Function.update left (m.acquire r).1 (some r), right) (m.acquire r).2 n := by
  refine ⟨h.toApart.acquireLeft r, ?_⟩
  simp only [Machine.acquire, h.stats, Nat.add_assoc]

/-- Reading slots that hold the same reference. -/
theorem pooled {id id' : RefId} {r : Reference} (hleft : live.1 id = some r)
    (hright : live.2 id' = some r) : Matches Eq Eq (ApartBy k live) (pooled id) (pooled id') := by
  intro m n hmn
  rw [pooled_eq, pooled_eq, hmn.left.get? id, hmn.right.get? id', hleft, hright]
  exact .ok rfl hmn

/-- It is kept with one more reference in both pools. -/
theorem keepsPools (k : Nat) : Machine.KeepsPools (ApartBy k) := by
  rintro ⟨left, right⟩ r α x y hxy m n hmn
  have hleft : left (m.acquire r).1 = none :=
    (hmn.left.get? _).symm.trans (hmn.left.valid.get?_fresh r)
  have hright : right (n.acquire r).1 = none :=
    (hmn.right.get? _).symm.trans (hmn.right.valid.get?_fresh r)
  have hpooled : Matches Eq Eq (ApartBy k (Function.update left (m.acquire r).1 (some r),
      Function.update right (n.acquire r).1 (some r))) (Eval.pooled (m.acquire r).1)
        (Eval.pooled (n.acquire r).1) :=
    pooled (Function.update_self ..) (Function.update_self ..)
  refine Agree.withReference (hxy _ _ _ hpooled (hmn.acquire r)) fun m' n' h => ?_
  exact ⟨(h.toApart.releaseLeft hleft).releaseRight hright, h.stats⟩

/-- Evaluation counts the same whatever the pools hold. -/
theorem evaluate (s : Settings) (n : Node) :
    Matches Eq Eq (ApartBy k live) (evaluate s n) (evaluate s n) :=
  (Machine.Steady.simulation (World.steady_eq s.host) (steady k) (keepsPools k)).evaluate_self
    (fun _ _ _ => (World.steady_eq s.host).observed _) n live

end Machine.ApartBy

/-! ### References in hand -/

section Slots

variable {α : Type} {r : Reference} {x : RefId → Eval α} {m n : Machine}

/-- A reference is given back after a value. -/
theorem Eval.withReference_of_ok {a : α} (h : x (m.acquire r).1 (m.acquire r).2 = .ok a n) :
    withReference r x m = .ok a (n.release (m.acquire r).1) := by
  unfold withReference
  generalize m.acquire r = acquired at h ⊢
  obtain ⟨id, m₁⟩ := acquired
  dsimp only at h ⊢
  rw [h]

/-- A reference is given back after an error. -/
theorem Eval.withReference_of_error {e : Error}
    (h : x (m.acquire r).1 (m.acquire r).2 = .error e n) :
    withReference r x m = .error e (n.release (m.acquire r).1) := by
  unfold withReference
  generalize m.acquire r = acquired at h ⊢
  obtain ⟨id, m₁⟩ := acquired
  dsimp only at h ⊢
  rw [h]

/-- Either way the machine afterwards is that of the body, with the slot given back. -/
theorem Eval.after_withReference (r : Reference) (x : RefId → Eval α) (m : Machine) :
    (withReference r x).after m =
      ((x (m.acquire r).1).after (m.acquire r).2).release (m.acquire r).1 := by
  unfold Eval.after
  cases h : x (m.acquire r).1 (m.acquire r).2 with
  | ok a n => rw [withReference_of_ok h]
  | error e n => rw [withReference_of_error h]

/-- Evaluations that agree on a machine leave the same machine. -/
theorem Eval.after_congr {x y : Eval α} (h : x m = y m) : x.after m = y.after m := by
  unfold Eval.after
  rw [h]

/-- Giving errors a place does not change the machine afterwards. -/
theorem Eval.after_locate (span : Span) (x : Eval α) (m : Machine) :
    (locate span x).after m = x.after m := by
  unfold Eval.after locate
  cases x m <;> rfl

/-- A slot that was taken and given back leaves a trace in the count of references only. -/
theorem Machine.ahead_release_acquire (r : Reference) (hm : m.references.Valid) :
    ((m.acquire r).2.release (m.acquire r).1).Ahead 1 m := by
  have hacquired := (Machine.ApartBy.refl hm).acquireLeft r
  have hreleased := hacquired.toApart.releaseLeft (hm.get?_fresh r)
  exact ⟨hreleased.equivalent, hacquired.stats⟩

end Slots

/-! ### The two ways to write a name -/

/-- The reference of a name that was resolved. -/
def Reference.ofName (name : String) : Option ScopeId → Reference
  | some scope => .binding name scope
  | none => .unresolvable name

/-- The reference of a name is that of the scope that was resolved for it. -/
theorem Eval.nameReference_eq_ofName (name : String) (m : Machine) :
    nameReference name m = .ok (.ofName name (m.env.resolve? name)) m := by
  rw [nameReference_eq]
  cases m.env.resolve? name <;> rfl

/-- Writing the reference of a name is writing the name. -/
theorem Reference.write_ofName (s : Settings) (v : Value) (name : String)
    (scope? : Option ScopeId) : (ofName name scope?).write s v = writeName s scope? name v := by
  cases scope? <;> rfl

/-- Writing through a slot of the pool does what the direct write does. -/
theorem writeThrough_agrees (s : Settings) (name : String) (scope? : Option ScopeId) (e : Node)
    {m : Machine} (hm : m.references.Valid) :
    Agree Eq Eq (Machine.ApartBy 1 (m.references.get?, m.references.get?))
      (withReference (.ofName name scope?) (writeThrough s (evaluate s e)) m)
      ((do
        let v ← evaluate s e
        writeName s scope? name v
        return v : Eval Value) m) := by
  have hself := Machine.ApartBy.refl hm
  have hfresh : m.references.get? (m.acquire (.ofName name scope?)).1 = none :=
    hm.get?_fresh (.ofName name scope?)
  have hbody : Matches Eq Eq
      (Machine.ApartBy 1 (Function.update m.references.get? (m.acquire (.ofName name scope?)).1
        (some (.ofName name scope?)), m.references.get?))
      (writeThrough s (evaluate s e) (m.acquire (.ofName name scope?)).1) (do
        let v ← evaluate s e
        writeName s scope? name v
        return v) := by
    refine (Machine.ApartBy.evaluate s e).bind fun v _ hv => ?_
    subst hv
    refine Matches.bind (V := Eq) (fun m' n' h => ?_) fun _ _ _ => Matches.pure rfl
    -- the slot still holds the reference, whatever the right-hand side did
    have hheld := (h.left.get? _).trans (Function.update_self ..)
    rw [putValue_eq, pooled_bind, hheld]
    dsimp only
    rw [Reference.write_ofName]
    exact (Machine.ApartBy.steady _ _).writeName s scope? name v h
  refine Agree.withReferenceLeft (hbody (hself.acquireLeft _)) fun m' n' h => ?_
  exact ⟨h.toApart.releaseLeft hfresh, h.stats⟩

/-! ### Reserved names -/

/-- A refused name fails before anything else. -/
theorem Eval.checkReserved_of_refuses {s : Settings} {name : String} (h : s.refuses name)
    (m : Machine) : checkReserved s name m = .error (.ofCause (.reservedName name)) m := by
  change (if s.refuses name then fail (.reservedName name) else return () : Eval Unit) m = _
  rw [if_pos h]
  rfl

/-- A name that is not refused passes without an effect. -/
theorem Eval.checkReserved_of_not_refuses {s : Settings} {name : String}
    (h : s.refuses name = false) (m : Machine) : checkReserved s name m = .ok () m := by
  change (if s.refuses name then fail (.reservedName name) else return () : Eval Unit) m = _
  rw [h]
  rfl

/-- A name that is not refused is resolved before the right-hand side is evaluated. -/
theorem Eval.assignNameThrough_eq {s : Settings} {name : String} (h : s.refuses name = false)
    (op : AssignOp) (value : Eval Value) (span : Span) (m : Machine) :
    assignNameThrough s op name value span m =
      locate span (withReference (.ofName name (m.env.resolve? name))
        (assignThrough s op value)) m := by
  rw [assignNameThrough, bind_of_ok (checkReserved_of_not_refuses h m),
    bind_of_ok (nameReference_eq_ofName name m)]

/-- The direct write to a name agrees with the way through a reference. In every machine whose pool
arose by its operations, whatever the right-hand side does and unless it is a function literal
without a name, a plain assignment comes both ways to the same value or fails for the same cause,
and leaves the same bindings, heap, trace, operator methods and references in progress. The counters
are the same too, but for the one reference that the second way puts into the pool unless strict
code refuses the name. -/
theorem direct_assignment_agrees (s : Settings) (name : String) {e : Node}
    (he : e.isAnonymousFunction = false) (span : Span) {m : Machine}
    (hm : m.references.Reachable) :
    Agree Eq Error.SameCause (Machine.Ahead (if s.refuses name then 0 else 1))
      (assignNameThrough s .assign name (evaluate s e) span m)
      (assignName s name e.isAnonymousFunction (evaluate s e) m) := by
  rw [he]
  cases hname : s.refuses name with
  | true =>
    have hrefused := checkReserved_of_refuses hname m
    rw [assignNameThrough, assignName, bind_of_error hrefused, bind_of_error hrefused]
    exact .error rfl (Machine.ApartBy.refl hm.valid).ahead
  | false =>
    rw [assignNameThrough_eq hname, assignName_eq (checkReserved_of_not_refuses hname m)]
    refine Agree.locateLeft span ?_
    have hwrites := writeThrough_agrees s name (m.env.resolve? name) e hm.valid
    exact hwrites.mono (fun _ _ hv => hv) (fun _ _ herror => congrArg Error.cause herror)
      fun _ _ h => h.ahead

/-- The right-hand side of `x = (x = "b")` declares the name that sloppy code is about to
declare. -/
theorem direct_assignment_agrees_declared :
    let s : Settings :=
      ⟨⟨fun _ _ => .answer .undefined, fun _ => false, fun _ => none, 0⟩, false, .elementwise⟩
    let m : Machine := .start ⟨.empty, []⟩ none .empty
    let e : Node := .assign .assign (.identifier "x") (.constant (.str "b")) ⟨4, 11⟩
    let n := (assignName s "x" false (evaluate s e)).after m
    m.references.Reachable ∧ e.isAnonymousFunction = false ∧ m.env.lookup? "x" = none ∧
      n.env.lookup? "x" = some (.str "b") ∧
      Agree Eq Error.SameCause (Machine.Ahead 1)
        (assignNameThrough s .assign "x" (evaluate s e) ⟨0, 12⟩ m) (.ok (.str "b") n) := by
  intro s m e n
  have hm : m.references.Reachable := .empty
  have hdirect : assignName s "x" e.isAnonymousFunction (evaluate s e) m = .ok (.str "b") n := rfl
  have hagree := direct_assignment_agrees s "x" (e := e) rfl ⟨0, 12⟩ hm
  rw [hdirect] at hagree
  exact ⟨hm, rfl, rfl, rfl, hagree⟩

end ScriptOps
