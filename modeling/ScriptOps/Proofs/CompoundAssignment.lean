import ScriptOps.Proofs.PoolIsolation

/-!
# Compound assignments

A compound assignment does what the plain assignment of the binary operation does. The compound one
holds a reference in the pool while the right-hand side is evaluated, and reads and writes through
it; the plain one looks the target up twice. Because the stack of scopes is a chain, the name is
read where it was resolved; because evaluation does not depend on the pool, the right-hand side
comes to the same outcome; and because it leaves the reference in its slot, the write goes to the
same place.
-/

namespace ScriptOps

open Eval

/-- Errors that have the same kind and the same message, at different places perhaps. -/
def Error.SameCause (e f : Error) : Prop :=
  e.cause = f.cause

section Places

variable {α β : Type} {V : α → β → Prop} {R : Machine → Machine → Prop} {x : Eval α} {y : Eval β}
  {m n : Machine}

/-- A place on the left does not matter. -/
theorem Agree.locateLeft (span : Span) {outcome : EStateM.Result Error Machine β}
    (h : Agree V Error.SameCause R (x m) outcome) :
    Agree V Error.SameCause R (Eval.locate span x m) outcome := by
  unfold Eval.locate
  generalize x m = p at h ⊢
  cases h with
  | ok hv hr => exact .ok hv hr
  | error he hr => exact .error ((Error.cause_locate _ _).trans he) hr

/-- A place on the right does not matter. -/
theorem Agree.locateRight (span : Span) {outcome : EStateM.Result Error Machine α}
    (h : Agree V Error.SameCause R outcome (y n)) :
    Agree V Error.SameCause R outcome (Eval.locate span y n) := by
  unfold Eval.locate
  generalize y n = q at h ⊢
  cases h with
  | ok hv hr => exact .ok hv hr
  | error he hr => exact .error (he.trans (Error.cause_locate _ _).symm) hr

/-- The same errors have the same cause. -/
theorem Matches.sameCause (h : Matches V Eq R x y) : Matches V Error.SameCause R x y :=
  fun _ _ hmn => (h hmn).mono (fun _ _ hv => hv) (fun _ _ he => congrArg Error.cause he)
    fun _ _ hr => hr

end Places

/-! ### What comes after the target was read -/

/-- What is left of a binary operator once its left operand has its value. -/
def Eval.finishBinary (s : Settings) (op : BinaryOp) (left : Value) (right : Node) (span : Span) :
    Eval Value := do
  let r ← evaluate s right
  count fun stats => { stats with binaryEvaluations := stats.binaryEvaluations + 1 }
  locate span (operate s op left r)

/-- A binary operator whose left operand came to a value finishes with the right one. -/
theorem evaluate_binary_of_left {s : Settings} {left : Node} {m m' : Machine} {l : Value}
    (h : evaluate s left m = .ok l m') (op : BinaryOp) (right : Node) (span : Span) :
    evaluate s (.binary op left right span) m = finishBinary s op l right span m' := by
  rw [evaluate]
  exact bind_of_ok h

/-- What is left of a compound assignment once its target was read. -/
def Eval.finishCompound (s : Settings) (op : BinaryOp) (current : Value) (right : Node)
    (id : RefId) : Eval Value := do
  let v ← evaluate s right
  count fun stats => { stats with compoundAssignments := stats.compoundAssignments + 1 }
  let result ← operate s op current v
  putValue s id result
  return result

/-- Both operate on the same values and write the same result, where the writes match. -/
theorem Machine.Apart.finishCompound
    {live : (RefId → Option Reference) × (RefId → Option Reference)} {s : Settings} (op : BinaryOp)
    (current : Value) (right : Node) (span : Span) {id : RefId} {write : Value → Eval Unit}
    (hwrite : ∀ v, Matches Eq Eq (Apart live) (putValue s id v) (write v)) :
    Matches Eq Error.SameCause (Apart live) (finishCompound s op current right id) (do
      let result ← finishBinary s op current right span
      write result
      return result) := by
  unfold Eval.finishCompound finishBinary
  simp only [bind_assoc]
  refine (evaluate s right).sameCause.bind fun v _ hv => ?_
  subst hv
  refine Matches.bind (V := fun _ _ => True) (fun m n hmn => .ok trivial { hmn with })
    fun _ _ _ => ?_
  have hoperate := ((steady live).operate (World.steady_eq s.host) op current v).sameCause
  refine Matches.bind (fun _ _ hmn => (hoperate hmn).locateRight span) fun result _ hresult => ?_
  subst hresult
  exact (hwrite result).sameCause.bind fun _ _ _ => Matches.pure rfl

/-! ### Reading the target -/

/-- The refusal of reserved names leaves the machine alone. -/
theorem Eval.checkReserved_eq (s : Settings) (name : String) (m : Machine) :
    checkReserved s name m = .ok () m ∨
      checkReserved s name m = .error (.ofCause (.reservedName name)) m := by
  unfold checkReserved
  split
  · exact .inr rfl
  · exact .inl rfl

/-- A name is read without an effect, and an undeclared one fails at its place. -/
theorem evaluate_identifier_eq (s : Settings) (name : String) (span : Span) (m : Machine) :
    evaluate s (.identifier name span) m = match m.env.lookup? name with
      | some v => .ok v m
      | none => .error ((Error.ofCause (.undeclared name)).locate span) m := by
  rw [evaluate]
  change (match m.env.lookup? name with
    | some v => return v
    | none => Eval.locate span (fail (.undeclared name)) : Eval Value) m = _
  cases m.env.lookup? name <;> rfl

/-- The value of a name in the scope that declares it. -/
theorem Eval.getValue_binding {m : Machine} {id : RefId} {name : String} {scope : ScopeId}
    {v : Value} (hslot : m.references.get? id = some (.binding name scope))
    (hv : (m.env.store.scope scope).getOwn? name = some v) : getValue id m = .ok v m := by
  rw [getValue, pooled_bind, hslot]
  change (match (m.env.store.scope scope).getOwn? name with
    | some v => return v
    | none => fail (.undeclared name) : Eval Value) m = _
  rw [hv]
  rfl

/-- Reading through a reference to an undeclared name fails. -/
theorem Eval.getValue_unresolvable {m : Machine} {id : RefId} {name : String}
    (hslot : m.references.get? id = some (.unresolvable name)) :
    getValue id m = .error (.ofCause (.undeclared name)) m := by
  rw [getValue, pooled_bind, hslot]
  rfl

/-- Reading through a reference to a property reads the property. -/
theorem Eval.getValue_property {m : Machine} {id : RefId} {base : Value} {key : String}
    (hslot : m.references.get? id = some (.property base key)) :
    getValue id m = lift (getProperty base key) m := by
  rw [getValue, pooled_bind, hslot]

/-- The scope that a name resolves to declares it, so it has a value there. -/
theorem Environment.getOwn?_of_resolve? {e : Environment} (h : e.IsLinked) {name : String}
    {scope : ScopeId} (hresolve : e.resolve? name = some scope) :
    ∃ v, (e.store.scope scope).getOwn? name = some v ∧ e.lookup? name = some v := by
  have hdeclares := declares_of_resolve? hresolve
  have hsome : ((e.store.scope scope).getOwn? name).isSome := by
    rwa [Scope.getOwn?, Option.isSome_map]
  obtain ⟨v, hv⟩ := Option.isSome_iff_exists.1 hsome
  refine ⟨v, hv, ?_⟩
  rw [h.lookup?_eq, hresolve]
  exact hv

/-! ### The two assignments -/

/-- A plain assignment of anything but a function literal. -/
theorem Eval.assignName_eq {s : Settings} {name : String} {m : Machine}
    (h : checkReserved s name m = .ok () m) (value : Eval Value) :
    assignName s name false value m = (do
      let v ← value
      writeName s (m.env.resolve? name) name v
      return v) m := by
  unfold assignName
  rw [bind_of_ok h]
  rfl

/-- A compound assignment whose target was read goes on with the right-hand side. -/
theorem Eval.compoundThrough_of_getValue {s : Settings} {op : BinaryOp} {right : Node} {id : RefId}
    {m m' : Machine} {v : Value} (h : getValue id m = .ok v m') :
    compoundThrough s op (evaluate s right) id m = finishCompound s op v right id m' :=
  bind_of_ok h

/-- To a name that is declared nowhere. Both fail when they read it. -/
theorem compoundThrough_unresolvable (s : Settings) (op : BinaryOp) {name : String} (right : Node)
    {m : Machine} (hm : m.Reachable) (hresolve : m.env.resolve? name = none) (span₁ span₂ : Span)
    (write : Value → Eval Value) :
    Agree Eq Error.SameCause (Machine.Apart (m.references.get?, m.references.get?))
      (withReference (.unresolvable name) (compoundThrough s op (evaluate s right)) m)
      ((evaluate s (.binary op (.identifier name span₁) right span₂) >>= write) m) := by
  have hself := Machine.Apart.refl hm
  have hslot := hm.references.valid.get?_acquire_self (.unresolvable name)
  have hlookup : m.env.lookup? name = none := by
    rw [hm.env.isLinked.lookup?_eq, hresolve, Option.bind_none]
  have hidentifier : evaluate s (.identifier name span₁) m =
      .error ((Error.ofCause (.undeclared name)).locate span₁) m := by
    rw [evaluate_identifier_eq, hlookup]
  have hbinary : evaluate s (.binary op (.identifier name span₁) right span₂) m =
      .error ((Error.ofCause (.undeclared name)).locate span₁) m := by
    rw [evaluate]
    exact bind_of_error hidentifier
  rw [bind_of_error hbinary]
  refine hself.withReferenceLeft ?_
  unfold compoundThrough
  rw [bind_of_error (getValue_unresolvable hslot)]
  exact .error (Error.cause_locate _ _).symm (hself.acquireLeft _)

/-- To a name that a scope declares. Both read it and write it there. -/
theorem compoundThrough_binding (s : Settings) (op : BinaryOp) {name : String} (right : Node)
    {m : Machine} (hm : m.Reachable) {scope : ScopeId} (hresolve : m.env.resolve? name = some scope)
    (span₁ span₂ : Span) :
    Agree Eq Error.SameCause (Machine.Apart (m.references.get?, m.references.get?))
      (withReference (.binding name scope) (compoundThrough s op (evaluate s right)) m)
      ((do
        let v ← evaluate s (.binary op (.identifier name span₁) right span₂)
        writeName s (some scope) name v
        return v : Eval Value) m) := by
  have hself := Machine.Apart.refl hm
  have hslot := hm.references.valid.get?_acquire_self (.binding name scope)
  obtain ⟨v, hown, hlookup⟩ := Environment.getOwn?_of_resolve? hm.env.isLinked hresolve
  have hidentifier : evaluate s (.identifier name span₁) m = .ok v m := by
    rw [evaluate_identifier_eq, hlookup]
  have hread := getValue_binding (m := (m.acquire (.binding name scope)).2) hslot hown
  rw [bind_of_eq (evaluate_binary_of_left hidentifier op right span₂)]
  refine hself.withReferenceLeft ?_
  change Agree _ _ _ (compoundThrough s op (evaluate s right) (m.references.acquire _).1 _) _
  rw [compoundThrough_of_getValue hread]
  refine Machine.Apart.finishCompound op v right span₂ (fun u m' n' h => ?_)
    (hself.acquireLeft (.binding name scope))
  -- the slot still holds the scope that the name was resolved to
  have hheld : m'.references.get? (m.acquire (.binding name scope)).1 =
      some (.binding name scope) := (h.left.get? _).trans (Function.update_self ..)
  change Agree _ _ _ (putValue s (m.acquire _).1 u m') _
  rw [putValue, pooled_bind, hheld]
  exact (Machine.Apart.steady _).writeName s (some scope) name u h

/-- Reading a property leaves the machine as it was. -/
theorem Eval.lift_getProperty_eq (base : Value) (key : String) (m : Machine) :
    (∃ v, lift (getProperty base key) m = .ok v m) ∨
      ∃ e, lift (getProperty base key) m = .error e m := by
  cases base with
  | object id => exact .inl ⟨_, rfl⟩
  | primitive p =>
    cases p with
    | undefined | null => exact .inr ⟨_, rfl⟩
    | bool | int | number | str => exact .inl ⟨_, rfl⟩

/-- A named property of a name. -/
theorem evaluateParts_eq {s : Settings} {name key : String} {base : Value} {m : Machine}
    (hlookup : m.env.lookup? name = some base) (span₁ span₂ : Span) :
    evaluateParts s (.mk (.identifier name span₁) (.named key) span₂) m = .ok (base, key) m := by
  have hidentifier : evaluate s (.identifier name span₁) m = .ok base m := by
    rw [evaluate_identifier_eq, hlookup]
  rw [evaluateParts]
  exact bind_of_ok hidentifier

/-- A member of an undeclared name fails before its key is looked at. -/
theorem evaluateParts_undeclared {s : Settings} {name key : String} {m : Machine}
    (hlookup : m.env.lookup? name = none) (span₁ span₂ : Span) :
    evaluateParts s (.mk (.identifier name span₁) (.named key) span₂) m =
      .error ((Error.ofCause (.undeclared name)).locate span₁) m := by
  have hidentifier : evaluate s (.identifier name span₁) m =
      .error ((Error.ofCause (.undeclared name)).locate span₁) m := by
    rw [evaluate_identifier_eq, hlookup]
  rw [evaluateParts]
  exact bind_of_error hidentifier

/-- A member of a name reads the property of the value of the name. -/
theorem evaluate_member_eq {s : Settings} {name key : String} {base : Value} {m : Machine}
    (hlookup : m.env.lookup? name = some base) (span₁ span₂ : Span) :
    evaluate s (.member (.mk (.identifier name span₁) (.named key) span₂)) m =
      locate span₂ (lift (getProperty base key)) m := by
  rw [evaluate]
  exact bind_of_ok (evaluateParts_eq hlookup span₁ span₂)

/-- To a property of a name. Both hold a reference to it, and the plain assignment reads it by the
name once more. -/
theorem compoundThrough_property (s : Settings) (op : BinaryOp) {name key : String} {base : Value}
    (right : Node) {m : Machine} (hm : m.Reachable) (hlookup : m.env.lookup? name = some base)
    (span₁ span₂ span₃ : Span) :
    Agree Eq Error.SameCause (Machine.Apart (m.references.get?, m.references.get?))
      (withReference (.property base key) (compoundThrough s op (evaluate s right)) m)
      (withReference (.property base key) (writeThrough s (evaluate s
        (.binary op (.member (.mk (.identifier name span₁) (.named key) span₂)) right
          span₃))) m) := by
  have hself := Machine.Apart.refl hm
  have hslot := hm.references.valid.get?_acquire_self (.property base key)
  have hacquired := (hself.acquireLeft (.property base key)).acquireRight (.property base key)
  refine hself.withReference ?_
  generalize hid : (m.acquire (.property base key)).1 = id at hacquired ⊢
  generalize hm₁ : (m.acquire (.property base key)).2 = m₁ at hacquired ⊢
  have hread : getValue id m₁ = lift (getProperty base key) m₁ := by
    subst hid hm₁
    exact getValue_property hslot
  have hlookup₁ : m₁.env.lookup? name = some base := by
    subst hm₁
    exact hlookup
  have hmember : evaluate s (.member (.mk (.identifier name span₁) (.named key) span₂)) m₁ =
      locate span₂ (lift (getProperty base key)) m₁ := evaluate_member_eq hlookup₁ span₁ span₂
  unfold writeThrough
  -- the same read of the property decides on both sides
  rcases lift_getProperty_eq base key m₁ with ⟨v, hv⟩ | ⟨e, he⟩
  · rw [hv] at hread
    have hleft : evaluate s (.member (.mk (.identifier name span₁) (.named key) span₂)) m₁ =
        .ok v m₁ := by
      rw [hmember, Eval.locate, hv]
    rw [compoundThrough_of_getValue hread,
      bind_of_eq (evaluate_binary_of_left hleft op right span₃)]
    refine Machine.Apart.finishCompound op v right span₃ (fun u => ?_) hacquired
    exact (Machine.Apart.steady _).putValue (World.steady_eq s.host) s
      (Machine.Apart.pooled (Function.update_self ..) (Function.update_self ..)) u
  · rw [he] at hread
    have hleft : evaluate s (.member (.mk (.identifier name span₁) (.named key) span₂)) m₁ =
        .error (e.locate span₂) m₁ := by
      rw [hmember, Eval.locate, he]
    have hbinary : evaluate s (.binary op
        (.member (.mk (.identifier name span₁) (.named key) span₂)) right span₃) m₁ =
        .error (e.locate span₂) m₁ := by
      rw [evaluate]
      exact bind_of_error hleft
    unfold compoundThrough
    rw [bind_of_error hread, bind_of_error hbinary]
    exact .error (Error.cause_locate _ _).symm hacquired

/-! ### The two assignments -/

/-- A target that is a tree as well. -/
inductive Place where
  /-- A name. -/
  | name (x : String)
  /-- A named property of a name. -/
  | property (object key : String)

/-- The target, with positions for the member and its object. -/
def Place.target (outer inner : Span) : Place → Target
  | name x => .identifier x
  | property object key => .member (.mk (.identifier object inner) (.named key) outer)

/-- The tree, with positions for the member and its object. -/
def Place.node (outer inner : Span) : Place → Node
  | name x => .identifier x outer
  | property object key => .member (.mk (.identifier object inner) (.named key) outer)

/-- A compound assignment with an operator of two values is that operator applied through a
reference. -/
theorem Eval.assignThrough_of_binaryOp? {s : Settings} {op : AssignOp} {binary : BinaryOp}
    (hop : op.binaryOp? = some binary) (value : Eval Value) :
    assignThrough s op value = compoundThrough s binary value := by
  funext id
  rw [assignThrough, hop]

/-- An assignment operator with a binary operator is not the plain one. -/
theorem AssignOp.ne_assign_of_binaryOp? {op : AssignOp} {binary : BinaryOp}
    (hop : op.binaryOp? = some binary) : op ≠ .assign := by
  rintro rfl
  nomatch hop

/-- Compound assignment is the plain assignment of the binary operation. In every machine whose
bindings and pool arose by their operations, `t op= e` and `t = t b e` come to the same value or
fail for the same cause, and leave the same bindings, heap, trace, operator methods and references
in progress. The positions are arbitrary on both sides. -/
theorem compound_assignment_agrees (s : Settings) {op : AssignOp} {binary : BinaryOp}
    (hop : op.binaryOp? = some binary) (t : Place) (e : Node) {m : Machine} (hm : m.Reachable)
    (p₁ p₂ p₃ q₁ q₂ q₃ q₄ q₅ q₆ : Span) :
    Agree Eq Error.SameCause Machine.Equivalent
      (evaluate s (.assign op (t.target p₁ p₂) e p₃) m)
      (evaluate s
        (.assign .assign (t.target q₁ q₂) (.binary binary (t.node q₃ q₄) e q₅) q₆) m) := by
  have hself := Machine.Apart.refl hm
  -- while both run, the pools differ in more than the empty slots, so this is proved with `Apart`
  suffices h : Agree Eq Error.SameCause (Machine.Apart (m.references.get?, m.references.get?))
      (evaluate s (.assign op (t.target p₁ p₂) e p₃) m)
      (evaluate s (.assign .assign (t.target q₁ q₂) (.binary binary (t.node q₃ q₄) e q₅) q₆) m) from
    h.mono (fun _ _ hv => hv) (fun _ _ he => he) fun _ _ hmn => hmn.equivalent
  cases t with
  | name x =>
    rw [Place.target, Place.target, Place.node, evaluate, evaluate,
      if_neg (AssignOp.ne_assign_of_binaryOp? hop), if_pos rfl, assignNameThrough,
      assignThrough_of_binaryOp? hop]
    have hfunction : (Node.binary binary (.identifier x q₃) e q₅).isAnonymousFunction = false := rfl
    rw [hfunction]
    refine Agree.locateRight q₆ ?_
    rcases checkReserved_eq s x m with hreserved | hreserved
    · rw [bind_of_ok hreserved, bind_of_ok (nameReference_eq x m), assignName_eq hreserved]
      refine Agree.locateLeft p₃ ?_
      cases hresolve : m.env.resolve? x with
      | none => exact compoundThrough_unresolvable s binary e hm hresolve q₃ q₅ _
      | some scope => exact compoundThrough_binding s binary e hm hresolve q₃ q₅
    · rw [assignName, bind_of_error hreserved, bind_of_error hreserved]
      exact .error rfl hself
  | property object key =>
    rw [Place.target, Place.target, Place.node, evaluate, evaluate,
      assignThrough_of_binaryOp? hop]
    have hplain (value : Eval Value) : assignThrough s .assign value = writeThrough s value := rfl
    rw [hplain]
    cases hlookup : m.env.lookup? object with
    | none =>
      rw [bind_of_error (evaluateParts_undeclared hlookup p₂ p₁),
        bind_of_error (evaluateParts_undeclared hlookup q₂ q₁)]
      exact .error ((Error.cause_locate _ _).trans (Error.cause_locate _ _).symm) hself
    | some base =>
      rw [bind_of_ok (evaluateParts_eq hlookup p₂ p₁), bind_of_ok (evaluateParts_eq hlookup q₂ q₁)]
      exact Agree.locateLeft p₃ (Agree.locateRight q₆
        (compoundThrough_property s binary e hm hlookup q₄ q₃ q₅))

/-- The assignments `x += "b"` and `x = x + "b"` where `x` is declared. -/
theorem compound_assignment_agrees_append :
    let m : Machine := .start ⟨.empty, []⟩ none (.define .empty "x" (.str "a") .mutable)
    let e : Node := .constant (.str "b")
    AssignOp.binaryOp? .add = some .add ∧ m.Reachable ∧ ∀ s : Settings,
      Agree Eq Error.SameCause Machine.Equivalent
        (evaluate s (.assign .add (.identifier "x") e ⟨0, 8⟩) m)
        (evaluate s (.assign .assign (.identifier "x")
          (.binary .add (.identifier "x" ⟨4, 5⟩) e ⟨4, 11⟩) ⟨0, 11⟩) m) := by
  intro m e
  have hm : m.Reachable :=
    Machine.Reachable.start _ none (.define "x" (.str "a") .mutable .empty)
  exact ⟨rfl, hm, fun s =>
    compound_assignment_agrees s rfl (.name "x") e hm ⟨0, 1⟩ ⟨0, 1⟩ _ ⟨0, 1⟩ ⟨0, 1⟩ _ ⟨0, 1⟩ _ _⟩

end ScriptOps
