import ScriptOps.Assignment
import ScriptOps.Proofs.Agreement
import ScriptOps.Proofs.WorldEffects

/-!
# Relations between worlds and machines

A relation between worlds is steady for a host when the steps on the heap and the observations keep
it and the host reacts alike in related worlds. Then every conversion and every operator keeps it.
On top of a steady relation a relation between machines is coupled when looks, steps on the world
and writes to the bindings keep it; reading and writing then match. It is steady when the machines
have the same operator methods as well; then operating matches.
-/

namespace ScriptOps

/-! ### Worlds -/

/-- A relation between worlds that the steps of a host keep. -/
structure World.Steady (host : Host) (S : World → World → Prop) : Prop where
  heap : ∀ {w w' : World}, S w w' → w.heap = w'.heap
  setHeap : ∀ {w w' : World} (h : Heap), S w w' → S { w with heap := h } { w' with heap := h }
  observe : ∀ {w w' : World} (e : Event), S w w' →
    S { w with trace := e :: w.trace } { w' with trace := e :: w'.trace }
  react : ∀ {w w' : World} (c : Callback), S w w' → host.react c w = host.react c w'

/-- Equality is steady. -/
theorem World.steady_eq (host : Host) : World.Steady host Eq where
  heap h := h ▸ rfl
  setHeap _ h := h ▸ rfl
  observe _ h := h ▸ rfl
  react _ h := h ▸ rfl

/-- An effect that does the same in related worlds. -/
def Action.Respects (S : World → World → Prop) ⦃α : Type⦄ (x : Action α) : Prop :=
  Matches Eq Eq S x x

namespace World.Steady

variable {host : Host} {S : World → World → Prop}

/-- Related worlds have the same heap. -/
theorem readHeap (h : Steady host S) : Matches Eq (@Eq Error) S Action.heap Action.heap :=
  fun _ _ hww => .ok (h.heap hww) hww

/-- What is done with the heap depends on nothing else in the world. -/
theorem bindHeap (h : Steady host S) {α : Type} {f : Heap → Action α}
    (hf : ∀ heap, Action.Respects S (f heap)) : Action.Respects S (Action.heap >>= f) :=
  h.readHeap.bind fun a _ hab => hab ▸ hf a

/-- Replacing the heap by the same one keeps worlds related. -/
theorem replaceHeap (h : Steady host S) (heap : Heap) :
    Action.Respects S (Action.setHeap heap) :=
  Matches.modify fun _ _ hww => h.setHeap heap hww

/-- Observing the same event keeps them related. -/
theorem observed (h : Steady host S) (e : Event) : Action.Respects S (Action.observe e) :=
  Matches.modify fun _ _ hww => h.observe e hww

/-- A sequence keeps worlds related if its parts do. -/
theorem bindSame {α β : Type} {x : Action α} {f : α → Action β} (hx : Action.Respects S x)
    (hf : ∀ a, Action.Respects S (f a)) : Action.Respects S (x >>= f) :=
  hx.bind fun a _ hab => hab ▸ hf a

/-- An assignment keeps them related. -/
theorem assign (h : Steady host S) (id : ObjectId) (key : String) (v : Value) :
    Action.Respects S (Action.assign id key v) := by
  refine h.bindHeap fun heap => ?_
  split
  · exact bindSame (h.replaceHeap _) fun _ => Matches.pure rfl
  · exact Matches.pure rfl

/-- So does a new prototype. -/
theorem link (h : Steady host S) (id : ObjectId) (prototype? : Option ObjectId) :
    Action.Respects S (Action.link id prototype?) := by
  refine h.bindHeap fun heap => ?_
  split
  · exact bindSame (h.replaceHeap _) fun _ => Matches.pure rfl
  · exact Matches.pure rfl

/-- So does the creation of an object. -/
theorem create (h : Steady host S) (kind : ObjectKind) :
    Action.Respects S (Action.create kind) :=
  h.bindHeap fun _ => bindSame (h.replaceHeap _) fun _ => Matches.pure rfl

/-- So does the creation of a function. -/
theorem createFunction (h : Steady host S) (name : String) (kind : FunctionKind) :
    Action.Respects S (Action.createFunction name kind) :=
  h.bindHeap fun _ => bindSame (h.replaceHeap _) fun _ => Matches.pure rfl

/-- So does the naming of a function. -/
theorem nameFunction (h : Steady host S) (v : Value) (name : String) :
    Action.Respects S (Action.nameFunction v name) := by
  cases v with
  | primitive p => exact Matches.pure rfl
  | object id => exact h.bindHeap fun _ => h.replaceHeap _

/-- A reaction is carried out step by step. -/
theorem run (h : Steady host S) (r : Reaction) : Action.Respects S r.run := by
  induction r with
  | answer v => exact Matches.pure rfl
  | fail e => exact Matches.throw rfl
  | write id key v next ih =>
    exact bindSame (h.assign id key v) fun accepted => bindSame (h.observed _) fun _ => ih accepted
  | create kind next ih => exact bindSame (h.create kind) fun id => ih id
  | link id prototype? next ih => exact bindSame (h.link id prototype?) fun accepted => ih accepted

/-- So does a callback, if the host reacts alike in related worlds. -/
theorem ask (h : Steady host S) (c : Callback) : Action.Respects S (host.ask c) := by
  refine Matches.get.bind fun w w' hww => ?_
  rw [h.react c hww]
  exact bindSame (h.observed _) fun _ => h.run _

/-- So everything that is built from the steps does the same in related worlds. -/
theorem closed (h : Steady host S) : Action.Closed host (Action.Respects S) where
  pure _ := Matches.pure rfl
  bind := bindSame
  fail _ := Matches.throw rfl
  heap := h.readHeap
  create := h.create
  createFunction := h.createFunction
  assign := h.assign
  compared _ _ := h.observed _
  ask := h.ask

end World.Steady

/-! ### Machines -/

open Eval

/-- Two machines that evaluation cannot tell apart by looking. -/
structure Machine.LooksLike (m n : Machine) : Prop where
  env : m.env = n.env
  heap : m.world.heap = n.world.heap

/-- Bindings that arise from others by a write of evaluation. -/
inductive Environment.Writes (e e' : Environment) : Prop where
  | setOwn (id : ScopeId) (name : String) (v : Value) : e.setOwn id name v = .ok e' → Writes e e'
  | defineOrAssign (name : String) (v : Value) : e.defineOrAssign name v = .ok e' → Writes e e'

/-- A relation between machines that looks, steps on the world and writes to the bindings keep. It
need not relate the operator methods. -/
structure Machine.Coupled (S : World → World → Prop) (R : Machine → Machine → Prop) : Prop where
  world : ∀ {m n : Machine}, R m n → S m.world n.world
  env : ∀ {m n : Machine}, R m n → m.env = n.env
  setWorld : ∀ {m n : Machine} {w w' : World}, R m n → S w w' →
    R { m with world := w } { n with world := w' }
  setEnv : ∀ {m n : Machine} {env : Environment}, R m n → m.env.Writes env →
    R { m with env } { n with env }
  countBinary : ∀ {m n : Machine}, R m n →
    R { m with stats.binaryEvaluations := m.stats.binaryEvaluations + 1 }
      { n with stats.binaryEvaluations := n.stats.binaryEvaluations + 1 }
  countCompound : ∀ {m n : Machine}, R m n →
    R { m with stats.compoundAssignments := m.stats.compoundAssignments + 1 }
      { n with stats.compoundAssignments := n.stats.compoundAssignments + 1 }

/-- Such a relation between machines with the same operator methods. -/
structure Machine.Steady (S : World → World → Prop) (R : Machine → Machine → Prop) : Prop
    extends Machine.Coupled S R where
  resolver : ∀ {m n : Machine}, R m n → m.resolver? = n.resolver?
  setResolver : ∀ {m n : Machine} (resolver? : Option Resolver), R m n →
    R { m with resolver? } { n with resolver? }

/-! ### Assignments -/

/-- Reads a reference. -/
def Reference.read : Reference → Eval Value
  | .binding name scope => do
    match ((← get).env.store.scope scope).getOwn? name with
    | some v => return v
    | none => fail (.undeclared name)
  | .unresolvable name => fail (.undeclared name)
  | .property base key => lift (getProperty base key)

/-- Writes a reference. -/
def Reference.write (s : Settings) (v : Value) : Reference → Eval Unit
  | .binding name scope => writeName s (some scope) name v
  | .unresolvable name => writeName s none name v
  | .property base key => lift (putProperty s.strict base key v)

/-- Reading through a slot reads the reference in it. -/
theorem Eval.getValue_eq (id : RefId) : getValue id = pooled id >>= Reference.read :=
  rfl

/-- Writing through a slot writes the reference in it. -/
theorem Eval.putValue_eq (s : Settings) (id : RefId) (v : Value) :
    putValue s id v = pooled id >>= Reference.write s v :=
  rfl

/-- An assignment by a way to read its target and a way to write it. -/
def Eval.assignBy (s : Settings) (op : AssignOp) (value read : Eval Value)
    (write : Value → Eval Unit) : Eval Value :=
  match op.binaryOp? with
  | some binary => do
    let current ← read
    let v ← value
    count fun stats => { stats with compoundAssignments := stats.compoundAssignments + 1 }
    let result ← operate s binary current v
    write result
    return result
  | none =>
    let replace : Eval Value := do
      let v ← value
      write v
      return v
    if op = .assign then replace
    else do
      let current ← read
      if keeps op current then return current else replace

/-- An assignment through a slot reads and writes through the slot. -/
theorem Eval.assignThrough_eq_assignBy (s : Settings) (op : AssignOp) (value : Eval Value)
    (id : RefId) :
    assignThrough s op value id = assignBy s op value (getValue id) (putValue s id) := by
  unfold assignThrough assignBy
  cases op.binaryOp? with
  | some binary => rfl
  | none => rfl

/-- Assignments are related when reading, writing, operating and the right-hand sides are, by every
relation that sequencing keeps. -/
theorem Eval.assignBy_related {M : ∀ ⦃α : Type⦄, Eval α → Eval α → Prop}
    (hpure : ∀ {α : Type} (a : α), M (pure a : Eval α) (pure a))
    (hbind : ∀ {α β : Type} {x y : Eval α} {f g : α → Eval β},
      M x y → (∀ a, M (f a) (g a)) → M (x >>= f) (y >>= g))
    {s t : Settings} {op : AssignOp} {value value' read read' : Eval Value}
    {write write' : Value → Eval Unit} (hvalue : M value value') (hread : M read read')
    (hwrite : ∀ v, M (write v) (write' v))
    (hcount : M
      (count fun stats => { stats with compoundAssignments := stats.compoundAssignments + 1 })
      (count fun stats => { stats with compoundAssignments := stats.compoundAssignments + 1 }))
    (hoperate : ∀ (binary : BinaryOp) (l r : Value),
      M (operate s binary l r) (operate t binary l r)) :
    M (assignBy s op value read write) (assignBy t op value' read' write') := by
  have hreturn (v : Value) : M (do write v; return v) (do write' v; return v) :=
    hbind (hwrite v) fun _ => hpure v
  have hreplace : M (do let v ← value; write v; return v) (do let v ← value'; write' v; return v) :=
    hbind hvalue hreturn
  unfold assignBy
  split
  · exact hbind hread fun current => hbind hvalue fun v => hbind hcount fun _ =>
      hbind (hoperate _ current v) hreturn
  · dsimp only
    split
    · exact hreplace
    · refine hbind hread fun current => ?_
      split
      · exact hpure current
      · exact hreplace

/-! ### Properties that sequencing keeps -/

/-- A property of effects on the machine that sequencing keeps and that looks, failures, the
counters and the search for an operator method have. Effects on the world have it if they have the
property `P`. -/
structure Eval.Closed (s : Settings) (P : ∀ ⦃α : Type⦄, Action α → Prop)
    (Q : ∀ ⦃α : Type⦄, Eval α → Prop) : Prop where
  steps : Action.LiteralFree s.host P
  pure : ∀ {α : Type} (a : α), Q (pure a : Eval α)
  bind : ∀ {α β : Type} {x : Eval α} {f : α → Eval β}, Q x → (∀ a, Q (f a)) → Q (x >>= f)
  look : ∀ {α : Type} {f : Machine → Eval α}, (∀ m, Q (f m)) → Q (get >>= f)
  fail : ∀ {α : Type} (c : Cause), Q (fail c : Eval α)
  lift : ∀ {α : Type} {x : Action α}, P x → Q (lift x)
  lookupMethod : ∀ (op : BinaryOp) (l r : Value), Q (lookupMethod op l r)
  countDispatch : Q (modify fun m => { m with resolver? := m.resolver?.map Resolver.countDispatch })
  countCompound : Q
    (count fun stats => { stats with compoundAssignments := stats.compoundAssignments + 1 })

namespace Eval.Closed

variable {s : Settings} {P : ∀ ⦃α : Type⦄, Action α → Prop} {Q : ∀ ⦃α : Type⦄, Eval α → Prop}

/-- Calling an operator method, if there is one. -/
theorem dispatch? (h : Closed s P Q) (op : BinaryOp) (l r : Value) : Q (dispatch? s op l r) := by
  refine h.bind (h.lookupMethod op l r) fun method? => ?_
  cases method? with
  | some method =>
    have hinvoke := h.lift (h.steps.invoke method l r)
    exact h.bind h.countDispatch fun _ => h.bind hinvoke fun _ => h.pure _
  | none => exact h.pure _

/-- Operators have the property. -/
theorem operate (h : Closed s P Q) (op : BinaryOp) (l r : Value) : Q (operate s op l r) := by
  have hrest (overloaded? : Option Value) : Q
      (match overloaded? with
        | some v => Pure.pure v
        | none => Eval.lift (op.evaluate s.host l r) : Eval Value) := by
    cases overloaded? with
    | some v => exact h.pure v
    | none => exact h.lift (h.steps.evaluate op l r)
  unfold Eval.operate
  split
  · exact h.bind (h.dispatch? op l r) hrest
  · exact h.bind (h.pure _) hrest

/-- Reading a reference has it. -/
theorem read (h : Closed s P Q) (r : Reference) : Q r.read := by
  cases r with
  | binding name scope =>
    refine h.look fun m => ?_
    split
    · exact h.pure _
    · exact h.fail _
  | unresolvable name => exact h.fail _
  | property base key => exact h.lift (h.steps.getProperty base key)

/-- An assignment has it if its right-hand side and its write do. -/
theorem assignBy (h : Closed s P Q) {op : AssignOp} {value read : Eval Value}
    {write : Value → Eval Unit} (hvalue : Q value) (hread : Q read) (hwrite : ∀ v, Q (write v)) :
    Q (assignBy s op value read write) := by
  refine (assignBy_related (M := fun _ x y => x = y ∧ Q x) (s := s) (t := s)
    (fun a => ⟨rfl, h.pure a⟩) (fun hx hf => ⟨?_, h.bind hx.2 fun a => (hf a).2⟩) ⟨rfl, hvalue⟩
    ⟨rfl, hread⟩ (fun v => ⟨rfl, hwrite v⟩) ⟨rfl, h.countCompound⟩
    fun binary l r => ⟨rfl, h.operate binary l r⟩).2
  rw [hx.1, funext fun a => (hf a).1]

end Eval.Closed

namespace Machine.Coupled

variable {host : Host} {S : World → World → Prop} {R : Machine → Machine → Prop}

/-- Coupled machines look alike to evaluations. -/
theorem looksLike (hS : World.Steady host S) (h : Coupled S R) {m n : Machine} (hmn : R m n) :
    m.LooksLike n :=
  ⟨h.env hmn, hS.heap (h.world hmn)⟩

/-- What is done after a look at the machine depends on its bindings and its heap alone. -/
theorem look (hS : World.Steady host S) (h : Coupled S R) {α : Type} {f g : Machine → Eval α}
    (hfg : ∀ m n, m.LooksLike n → Matches Eq Eq R (f m) (g n)) :
    Matches Eq Eq R (get >>= f) (get >>= g) :=
  Matches.get.bind fun _ _ hmn => hfg _ _ (h.looksLike hS hmn)

/-- An effect on the world leaves the rest of the machine alone. -/
theorem lift (h : Coupled S R) {α : Type} {x y : Action α} (hxy : Matches Eq Eq S x y) :
    Matches Eq Eq R (Eval.lift x) (Eval.lift y) := by
  intro m n hmn
  have hagree := hxy (h.world hmn)
  unfold Eval.lift
  generalize x m.world = p at hagree ⊢
  generalize y n.world = q at hagree ⊢
  cases hagree with
  | ok hv hw => exact .ok hv (h.setWorld hmn hw)
  | error he hw => exact .error he (h.setWorld hmn hw)

/-- The outcome of a write is taken over alike. -/
theorem commit (h : Coupled S R) (s : Settings) (name : String)
    {written : Except BindingError Environment} {m n : Machine} (hmn : R m n)
    (hwritten : ∀ env, written = .ok env → m.env.Writes env) :
    Agree Eq Eq R (commit s name written m) (commit s name written n) := by
  cases written with
  | ok env => exact .ok rfl (h.setEnv hmn (hwritten env rfl))
  | error cause =>
    cases cause with
    | immutable | undeclared => exact .error rfl hmn
    | readOnly => exact Matches.ite (Matches.throw rfl) (Matches.pure rfl) hmn

/-- Writing a name keeps coupled machines coupled. -/
theorem writeName (h : Coupled S R) (s : Settings) (scope? : Option ScopeId) (name : String)
    (v : Value) : Matches Eq Eq R (writeName s scope? name v) (writeName s scope? name v) := by
  intro m n hmn
  have henv := h.env hmn
  cases scope? with
  | some id =>
    change Agree Eq Eq R (Eval.commit s name (m.env.setOwn id name v) m)
      (Eval.commit s name (n.env.setOwn id name v) n)
    rw [← henv]
    exact h.commit s name hmn fun _ => .setOwn id name v
  | none =>
    change Agree Eq Eq R
      ((if s.strict then fail (.undeclared name)
        else Eval.commit s name (m.env.defineOrAssign name v) : Eval Unit) m)
      ((if s.strict then fail (.undeclared name)
        else Eval.commit s name (n.env.defineOrAssign name v) : Eval Unit) n)
    rw [← henv]
    split
    · exact .error rfl hmn
    · exact h.commit s name hmn fun _ => .defineOrAssign name v

/-- Reading the same reference. -/
theorem read (hS : World.Steady host S) (h : Coupled S R) (r : Reference) :
    Matches Eq Eq R r.read r.read := by
  cases r with
  | binding name scope =>
    refine h.look hS fun m n hmn => ?_
    rw [hmn.env]
    split
    · exact Matches.pure rfl
    · exact Matches.throw rfl
  | unresolvable name => exact Matches.throw rfl
  | property base key => exact h.lift (hS.closed.getProperty base key)

/-- Writing the same reference. -/
theorem write (hS : World.Steady host S) (h : Coupled S R) (s : Settings) (r : Reference)
    (v : Value) : Matches Eq Eq R (r.write s v) (r.write s v) := by
  cases r with
  | binding name scope => exact h.writeName s (some scope) name v
  | unresolvable name => exact h.writeName s none name v
  | property base key => exact h.lift (hS.closed.putProperty s.strict base key v)

/-- Reading through two slots that hold the same reference. -/
theorem getValue (hS : World.Steady host S) (h : Coupled S R) {i j : RefId}
    (hpooled : Matches Eq Eq R (pooled i) (pooled j)) :
    Matches Eq Eq R (getValue i) (getValue j) := by
  rw [getValue_eq, getValue_eq]
  exact hpooled.bind fun r _ hr => hr ▸ h.read hS r

/-- Writing through two slots that hold the same reference. -/
theorem putValue (hS : World.Steady host S) (h : Coupled S R) (s : Settings) {i j : RefId}
    (hpooled : Matches Eq Eq R (pooled i) (pooled j)) (v : Value) :
    Matches Eq Eq R (putValue s i v) (putValue s j v) := by
  rw [putValue_eq, putValue_eq]
  exact hpooled.bind fun r _ hr => hr ▸ h.write hS s r v

/-- The whole assignment through two slots that hold the same reference. -/
theorem assignThrough {s : Settings} (hS : World.Steady s.host S) (h : Coupled S R)
    (hoperate : ∀ (op : BinaryOp) (l r : Value),
      Matches Eq Eq R (operate s op l r) (operate s op l r))
    (op : AssignOp) {i j : RefId} (hpooled : Matches Eq Eq R (pooled i) (pooled j))
    {x y : Eval Value} (hxy : Matches Eq Eq R x y) :
    Matches Eq Eq R (assignThrough s op x i) (assignThrough s op y j) := by
  rw [assignThrough_eq_assignBy, assignThrough_eq_assignBy]
  exact assignBy_related (M := fun _ x y => Matches Eq Eq R x y) (fun _ => Matches.pure rfl)
    (fun hx hf => hx.bind fun a _ hab => hab ▸ hf a) hxy (h.getValue hS hpooled)
    (h.putValue hS s hpooled) (Matches.modify fun _ _ hmn => h.countCompound hmn) hoperate

end Machine.Coupled

namespace Machine.Steady

variable {host : Host} {S : World → World → Prop} {R : Machine → Machine → Prop}

/-- Operator methods are looked up in the same resolver and called in related worlds. -/
theorem dispatch? {s : Settings} (hS : World.Steady s.host S) (h : Steady S R) (op : BinaryOp)
    (l r : Value) : Matches Eq Eq R (dispatch? s op l r) (dispatch? s op l r) := by
  have hlookup : Matches Eq Eq R (lookupMethod op l r) (lookupMethod op l r) := by
    refine Matches.get.bind fun m n hmn => ?_
    rw [h.resolver hmn, hS.heap (h.world hmn)]
    split
    · refine Matches.bind (V := Eq) (fun _ _ _ => .ok rfl ?_) fun _ _ _ => Matches.pure rfl
      exact h.setResolver _ hmn
    · exact Matches.pure rfl
  refine hlookup.bind fun method? _ hm => ?_
  subst hm
  cases method? with
  | none => exact Matches.pure rfl
  | some method =>
    refine Matches.bind (V := Eq) (Matches.modify fun m n hmn => ?_) fun _ _ _ =>
      (h.lift (hS.closed.invoke method l r)).bind fun _ _ hab => Matches.pure (hab ▸ rfl)
    rw [h.resolver hmn]
    exact h.setResolver _ hmn

/-- Operators keep machines related when lookups of methods do. -/
theorem operate {s : Settings} (hS : World.Steady s.host S) (h : Steady S R) (op : BinaryOp)
    (l r : Value) : Matches Eq Eq R (operate s op l r) (operate s op l r) := by
  have hrest (overloaded? : Option Value) : Matches Eq Eq R
      (match overloaded? with
        | some v => pure v
        | none => Eval.lift (op.evaluate s.host l r) : Eval Value)
      (match overloaded? with
        | some v => pure v
        | none => Eval.lift (op.evaluate s.host l r)) := by
    cases overloaded? with
    | some v => exact Matches.pure rfl
    | none => exact h.lift (hS.closed.evaluate op l r)
  refine Matches.ite ((h.dispatch? hS op l r).bind fun a _ hab => ?_)
    (Matches.bind (V := Eq) (Matches.pure rfl) fun a _ hab => ?_)
  · exact hab ▸ hrest a
  · exact hab ▸ hrest a

end Machine.Steady

/-- Outcomes with a reference in each pool agree after the slots were given back. -/
theorem Agree.withReference {α β : Type} {V : α → β → Prop} {E : Error → Error → Prop}
    {Q R : Machine → Machine → Prop} {r r' : Reference} {x : RefId → Eval α} {y : RefId → Eval β}
    {m n : Machine}
    (hbody : Agree V E Q (x (m.acquire r).1 (m.acquire r).2) (y (n.acquire r').1 (n.acquire r').2))
    (hrelease : ∀ m' n', Q m' n' →
      R (m'.release (m.acquire r).1) (n'.release (n.acquire r').1)) :
    Agree V E R (Eval.withReference r x m) (Eval.withReference r' y n) := by
  unfold Eval.withReference
  generalize m.acquire r = left at hbody hrelease ⊢
  generalize n.acquire r' = right at hbody hrelease ⊢
  obtain ⟨id, m₁⟩ := left
  obtain ⟨id', n₁⟩ := right
  dsimp only at hbody hrelease ⊢
  generalize x id m₁ = p at hbody ⊢
  generalize y id' n₁ = q at hbody ⊢
  cases hbody with
  | ok hv h => exact .ok hv (hrelease _ _ h)
  | error he h => exact .error he (hrelease _ _ h)

/-- Outcomes with a reference in the left pool agree after its slot was given back. -/
theorem Agree.withReferenceLeft {α β : Type} {V : α → β → Prop} {E : Error → Error → Prop}
    {Q R : Machine → Machine → Prop} {r : Reference} {x : RefId → Eval α} {m : Machine}
    {outcome : EStateM.Result Error Machine β}
    (hbody : Agree V E Q (x (m.acquire r).1 (m.acquire r).2) outcome)
    (hrelease : ∀ m' n', Q m' n' → R (m'.release (m.acquire r).1) n') :
    Agree V E R (Eval.withReference r x m) outcome := by
  unfold Eval.withReference
  generalize m.acquire r = left at hbody hrelease ⊢
  obtain ⟨id, m₁⟩ := left
  dsimp only at hbody hrelease ⊢
  generalize x id m₁ = p at hbody ⊢
  cases hbody with
  | ok hv h => exact .ok hv (hrelease _ _ h)
  | error he h => exact .error he (hrelease _ _ h)

namespace Matches

variable {R : Machine → Machine → Prop} {α : Type}

/-- The same error gets the same place. -/
theorem locate {x y : Eval α} (span : Span) (h : Matches Eq Eq R x y) :
    Matches Eq Eq R (locate span x) (locate span y) := by
  intro m n hmn
  have hagree := h hmn
  unfold Eval.locate
  generalize x m = p at hagree ⊢
  generalize y n = q at hagree ⊢
  cases hagree with
  | ok hv hr => exact .ok hv hr
  | error he hr => exact .error (he ▸ rfl) hr

/-- The refusal of reserved names depends on the setting alone. -/
theorem checkReserved (s : Settings) (name : String) :
    Matches Eq Eq R (checkReserved s name) (checkReserved s name) :=
  Matches.ite (Matches.throw rfl) (Matches.pure rfl)

end Matches

end ScriptOps
