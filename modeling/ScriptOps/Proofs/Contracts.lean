import ScriptOps.Proofs.PoolBalance
import ScriptOps.Proofs.TreeFeatures

/-!
# Contracts of evaluation

What the evaluation of a tree may do to the bindings and how it may fail can be told from its
features: the positions of its nodes, the names that it writes and the patterns in it.
`Eval.Contract` collects what must hold of the single writes and the single failures. Then every
tree whose features pass the test of the contract obeys it; the induction over trees is done here
once, for all contracts.

Most failures get a place on their way out. The few that do not, `Eval.Escapes`, are failures of
patterns, and the reserved names that strict code refuses before an assignment with an operator has
a place.
-/

namespace ScriptOps

open Eval

/-! ### Contracts -/

/-- Whether a name is reserved and the code strict. -/
def Settings.refuses (s : Settings) (name : String) : Bool :=
  s.strict && (name == "eval" || name == "arguments")

/-- The causes of the errors that get no place, and what a tree must have in it to fail for them. -/
inductive Eval.Escapes (s : Settings) (F : Feature → Prop) : Cause → Prop where
  /-- The assignment has no place yet. -/
  | reserved {op : AssignOp} {name : String} (hop : op ≠ .assign) (hname : s.refuses name)
    (hF : F (.written (some op) name)) : Escapes s F (.reservedName name)
  | reservedElement {name : String} (hname : s.refuses name) (hF : F (.written none name)) :
    Escapes s F (.reservedName name)
  | constantElement {name : String} (hF : F (.written none name)) :
    Escapes s F (.constantBinding name)
  | readOnlyElement {name : String} (hstrict : s.strict) (hF : F (.written none name)) :
    Escapes s F (.readOnlyBinding name)
  | undeclaredElement {name : String} (hstrict : s.strict) (hF : F (.written none name)) :
    Escapes s F (.undeclared name)
  | invalidElement (hF : F (.invalid none)) : Escapes s F .invalidTarget
  | notIterable {value : String} (hF : F .arrayPattern) : Escapes s F (.notIterable value)
  /-- The message speaks of the first key. -/
  | nullish {keys : List String} {base : String} (hF : F (.objectPattern keys)) :
    Escapes s F (.propertyOfNullish (keys.headD "") base)

/-- The outcome has a valid pool, its bindings are related to those of the machine, and its error,
if it is one, is among the given ones. -/
inductive Eval.Meets (R : Environment → Environment → Prop) (D : Error → Prop) (m : Machine)
    {α : Type} : EStateM.Result Error Machine α → Prop where
  | ok {a : α} {m' : Machine} (hvalid : m'.references.Valid) (henv : R m.env m'.env) :
    Meets R D m (.ok a m')
  | error {e : Error} {m' : Machine} (hvalid : m'.references.Valid) (henv : R m.env m'.env)
    (he : D e) : Meets R D m (.error e m')

/-- Every outcome of the effect does. -/
def Eval.Obeys (R : Environment → Environment → Prop) (D : Error → Prop) ⦃α : Type⦄
    (x : Eval α) : Prop :=
  ∀ ⦃m : Machine⦄, m.references.Valid → Meets R D m (x m)

/-- What single steps do: `R` relates the bindings before and after a write, `Raw` are the errors of
effects that still get a place, and `E` the errors of evaluation. The features of the tree pass the
test `F`, and the effects on the world have the property `P`. -/
structure Eval.Contract (s : Settings) (F : Feature → Prop) (P : ∀ ⦃α : Type⦄, Action α → Prop)
    (R : Environment → Environment → Prop) (Raw E : Error → Prop) : Prop where
  steps : Action.Closed s.host P
  naming : ∀ (v : Value) (name : String), P (Action.nameFunction v name)
  refl : ∀ e : Environment, R e e
  trans : ∀ e₁ e₂ e₃ : Environment, R e₁ e₂ → R e₂ e₃ → R e₁ e₃
  setOwn : ∀ {op? : Option AssignOp} {name : String} {id : ScopeId} {v : Value}
    {e e' : Environment}, F (.written op? name) → s.refuses name = false →
    e.setOwn id name v = .ok e' → R e e'
  declare : ∀ {op? : Option AssignOp} {name : String} {v : Value} {e : Environment},
    F (.written op? name) → s.refuses name = false → s.strict = false → e.resolve? name = none →
    R e (e.defineGlobal name v .mutable)
  failed : ∀ {α : Type} {x : Action α} {w w' : World} {e : Error}, P x → x w = .error e w' → Raw e
  raw : ∀ {e : Error}, E e → Raw e
  cause : ∀ c : Cause, Raw (.ofCause c)
  place : ∀ {span : Span} {e : Error}, F (.position span) → Raw e → E (e.locate span)
  escape : ∀ {c : Cause}, Escapes s F c → E (.ofCause c)

namespace Eval.Meets

variable {R : Environment → Environment → Prop} {D D' : Error → Prop} {m m₁ : Machine} {α : Type}
  {outcome : EStateM.Result Error Machine α}

/-- A contract is weakened by admitting more errors. -/
theorem mono (h : Meets R D m outcome) (hD : ∀ e, D e → D' e) : Meets R D' m outcome := by
  cases h with
  | ok hvalid henv => exact .ok hvalid henv
  | error hvalid henv he => exact .error hvalid henv (hD _ he)

/-- The effects before come first. -/
theorem after (htrans : ∀ e₁ e₂ e₃ : Environment, R e₁ e₂ → R e₂ e₃ → R e₁ e₃)
    (hfirst : R m.env m₁.env) (h : Meets R D m₁ outcome) : Meets R D m outcome := by
  cases h with
  | ok hvalid henv => exact .ok hvalid (htrans _ _ _ hfirst henv)
  | error hvalid henv he => exact .error hvalid (htrans _ _ _ hfirst henv) he

end Eval.Meets

/-! ### References in hand -/

/-- Only what is done with the slot matters. -/
theorem Eval.withReference_congr {α : Type} {r : Reference} {x y : RefId → Eval α} {m : Machine}
    (h : x (m.acquire r).1 (m.acquire r).2 = y (m.acquire r).1 (m.acquire r).2) :
    withReference r x m = withReference r y m := by
  unfold withReference
  generalize m.acquire r = acquired at h ⊢
  obtain ⟨id, m₁⟩ := acquired
  dsimp only at h ⊢
  rw [h]

/-- What an assignment reads and writes through its slot is the reference that it put there. -/
theorem Eval.withReference_assignThrough (s : Settings) (op : AssignOp) (n : Node) (r : Reference)
    {m : Machine} (hm : m.references.Valid) :
    withReference r (assignThrough s op (evaluate s n)) m =
      withReference r (fun _ => assignBy s op (evaluate s n) r.read (r.write s)) m := by
  have hheld : (m.acquire r).2.references.Holds
      (Function.update m.references.get? (m.acquire r).1 (some r)) :=
    ReferencePool.Holds.acquire ⟨hm, fun _ => rfl⟩ r
  have hlive : Function.update m.references.get? (m.acquire r).1 (some r) (m.acquire r).1 =
      some r := Function.update_self ..
  exact withReference_congr <| Machine.Holding.eq_of_agree <|
    Machine.Holding.assignThrough s op n hlive ⟨rfl, hheld⟩

/-- So is what a write through it writes. -/
theorem Eval.withReference_putValue (s : Settings) (v : Value) (r : Reference) {m : Machine}
    (hm : m.references.Valid) :
    withReference r (fun id => putValue s id v) m = withReference r (fun _ => r.write s v) m := by
  have hslot : (m.acquire r).2.references.get? (m.acquire r).1 = some r := hm.get?_acquire_self r
  refine withReference_congr ?_
  rw [putValue_eq, pooled_bind, hslot]

/-! ### Effects on the world that end in one way -/

/-- A value is a source of elements, or it is not iterable. -/
theorem elementSource_cases (v : Value) (w : World) :
    (∃ source, elementSource v w = .ok source w) ∨
      ∃ text, elementSource v w = .error (.ofCause (.notIterable text)) w := by
  cases v with
  | primitive p =>
    cases p with
    | str s => exact .inl ⟨_, rfl⟩
    | undefined | null | bool | int | number => exact .inr ⟨_, rfl⟩
  | object id =>
    change (∃ source, (if (w.heap.kind id).elements?.isSome then return .array id
        else Action.fail (.notIterable (w.heap.displayObject id)) : Action ElementSource) w =
          .ok source w) ∨
      ∃ text, (if (w.heap.kind id).elements?.isSome then return .array id
        else Action.fail (.notIterable (w.heap.displayObject id)) : Action ElementSource) w =
          .error (.ofCause (.notIterable text)) w
    split
    · exact .inl ⟨_, rfl⟩
    · exact .inr ⟨_, rfl⟩

/-- Every value but undefined and null has its properties. -/
theorem getProperty_total {v : Value} (hv : v.isNullish = false) (key : String) (w : World) :
    ∃ a w', getProperty v key w = .ok a w' := by
  cases v with
  | object id => exact ⟨_, _, rfl⟩
  | primitive p =>
    cases p with
    | undefined | null => nomatch hv
    | _ => exact ⟨_, _, rfl⟩

/-- An assignment to a property is accepted or refused. -/
theorem Action.assign_total (id : ObjectId) (key : String) (v : Value) (w : World) :
    ∃ accepted w', Action.assign id key v w = .ok accepted w' := by
  rw [Action.assign_eq]
  split
  · exact ⟨_, _, rfl⟩
  · exact ⟨_, _, rfl⟩

/-- So is a prototype. -/
theorem Action.link_total (id : ObjectId) (prototype? : Option ObjectId) (w : World) :
    ∃ accepted w', Action.link id prototype? w = .ok accepted w' := by
  rw [Action.link_eq]
  split
  · exact ⟨_, _, rfl⟩
  · exact ⟨_, _, rfl⟩

/-! ### Steps -/

namespace Eval.Contract

variable {s : Settings} {F : Feature → Prop} {P : ∀ ⦃α : Type⦄, Action α → Prop}
  {R : Environment → Environment → Prop} {Raw E D : Error → Prop} {α β : Type}

/-- An effect that cannot fail and leaves the bindings and the pool alone. -/
theorem quiet (h : Contract s F P R Raw E) {x : Eval α}
    (hx : ∀ m, ∃ a m', x m = .ok a m' ∧ m'.env = m.env ∧ m'.references = m.references) :
    Obeys R D x := by
  intro m hm
  obtain ⟨a, m', hok, henv, hreferences⟩ := hx m
  rw [hok]
  exact .ok (hreferences ▸ hm) (henv ▸ h.refl m.env)

/-- A value obeys every contract. -/
theorem pure (h : Contract s F P R Raw E) (a : α) : Obeys R D (pure a : Eval α) :=
  h.quiet fun m => ⟨a, m, rfl, rfl, rfl⟩

/-- A failure obeys a contract that admits its error. -/
theorem fail (h : Contract s F P R Raw E) {c : Cause} (hc : D (.ofCause c)) :
    Obeys R D (fail c : Eval α) :=
  fun m hm => .error hm (h.refl m.env) hc

/-- A sequence obeys a contract if its parts do. -/
theorem bind (h : Contract s F P R Raw E) {x : Eval α} {f : α → Eval β} (hx : Obeys R D x)
    (hf : ∀ a, Obeys R D (f a)) : Obeys R D (x >>= f) := by
  intro m hm
  have hfirst := hx hm
  cases hrun : x m with
  | ok a m₁ =>
    rw [hrun] at hfirst
    rw [bind_of_ok hrun]
    cases hfirst with
    | ok hvalid henv => exact (hf a hvalid).after h.trans henv
  | error e m₁ =>
    rw [hrun] at hfirst
    rw [bind_of_error hrun]
    cases hfirst with
    | error hvalid henv he => exact .error hvalid henv he

/-- An evaluation that looks at the machine obeys a contract if it does for each machine. -/
theorem look {f : Machine → Eval α} (hf : ∀ m, Obeys R D (f m)) : Obeys R D (get >>= f) :=
  fun m hm => hf m hm

/-- Located errors are raw errors for an operation around. -/
theorem weaken (h : Contract s F P R Raw E) {x : Eval α} (hx : Obeys R E x) : Obeys R Raw x :=
  fun _ hm => (hx hm).mono fun _ => h.raw

/-- An evaluation whose errors get a place obeys a contract for errors with places. -/
theorem locate (h : Contract s F P R Raw E) {span : Span} (hspan : F (.position span))
    {x : Eval α} (hx : Obeys R Raw x) : Obeys R E (locate span x) := by
  intro m hm
  have hrun := hx hm
  unfold Eval.locate
  generalize x m = outcome at hrun ⊢
  cases hrun with
  | ok hvalid henv => exact .ok hvalid henv
  | error hvalid henv he => exact .error hvalid henv (h.place hspan he)

/-- Effects on the world leave the bindings alone. -/
theorem lift (h : Contract s F P R Raw E) {x : Action α} (hx : P x) :
    Obeys R Raw (lift x) := by
  intro m hm
  unfold Eval.lift
  cases hrun : x m.world with
  | ok a w => exact .ok hm (h.refl m.env)
  | error e w => exact .error hm (h.refl m.env) (h.failed hx hrun)

/-- Some of them cannot fail. -/
theorem lift_total (h : Contract s F P R Raw E) {x : Action α}
    (hx : ∀ w, ∃ a w', x w = .ok a w') : Obeys R D (Eval.lift x) := by
  refine h.quiet fun m => ?_
  obtain ⟨a, w, hok⟩ := hx m.world
  exact ⟨a, { m with world := w }, by rw [Eval.lift, hok], rfl, rfl⟩

/-- The pool is valid again once the slot is given back. -/
theorem withReference (h : Contract s F P R Raw E) {r : Reference} {x : Eval α} {m : Machine}
    (hx : Meets R D (m.acquire r).2 (x (m.acquire r).2)) :
    Meets R D m (withReference r (fun _ => x) m) := by
  have henv : R m.env (m.acquire r).2.env := h.refl m.env
  have hrun := hx.after h.trans henv
  unfold Eval.withReference
  generalize m.acquire r = acquired at hrun ⊢
  obtain ⟨id, m₁⟩ := acquired
  dsimp only at hrun ⊢
  generalize x m₁ = outcome at hrun ⊢
  cases hrun with
  | ok hvalid henv => exact .ok (hvalid.release id) henv
  | error hvalid henv he => exact .error (hvalid.release id) henv he

/-- So the errors that still get a place are kept by all that is put together from such steps. -/
theorem closed (h : Contract s F P R Raw E) : Eval.Closed s P (Obeys R Raw) where
  steps := h.steps.toLiteralFree
  pure := h.pure
  bind := h.bind
  look := look
  fail c := h.fail (h.cause c)
  lift := h.lift
  lookupMethod op l r := by
    refine h.quiet fun m => ?_
    obtain ⟨world, resolver?, env, references, stats⟩ := m
    cases resolver? with
    | some resolver => exact ⟨_, _, rfl, rfl, rfl⟩
    | none => exact ⟨_, _, rfl, rfl, rfl⟩
  countDispatch := h.quiet fun _ => ⟨_, _, rfl, rfl, rfl⟩
  countCompound := h.quiet fun _ => ⟨_, _, rfl, rfl, rfl⟩

/-! ### Writes -/

/-- What follows the question whether a name is reserved. -/
theorem checked (h : Contract s F P R Raw E) {name : String} {f : Unit → Eval α}
    (hrefused : s.refuses name → D (.ofCause (.reservedName name)))
    (hf : s.refuses name = false → Obeys R D (f ())) :
    Obeys R D (checkReserved s name >>= f) := by
  change Obeys R D
    ((if s.refuses name then Eval.fail (.reservedName name) else Pure.pure () : Eval Unit) >>= f)
  cases hname : s.refuses name with
  | true =>
    intro m hm
    exact .error hm (h.refl m.env) (hrefused hname)
  | false => exact hf hname

/-- The outcome of a write is taken over, or the write is refused. -/
theorem commit (h : Contract s F P R Raw E) {name : String}
    {written : Except BindingError Environment} {m : Machine} (hm : m.references.Valid)
    (hok : ∀ env, written = .ok env → R m.env env)
    (hconstant : D (.ofCause (.constantBinding name)))
    (hreadOnly : s.strict → D (.ofCause (.readOnlyBinding name)))
    (hundeclared : written = .error .undeclared → D (.ofCause (.undeclared name))) :
    Meets R D m (commit s name written m) := by
  cases written with
  | ok env => exact .ok hm (hok env rfl)
  | error cause =>
    cases cause with
    | immutable => exact .error hm (h.refl m.env) hconstant
    | undeclared => exact .error hm (h.refl m.env) (hundeclared rfl)
    | readOnly =>
      change Meets R D m
        ((if s.strict then Eval.fail (.readOnlyBinding name) else Pure.pure () : Eval Unit) m)
      split
      · next hstrict => exact .error hm (h.refl m.env) (hreadOnly hstrict)
      · exact .ok hm (h.refl m.env)

/-- Writing a name that is assigned to in the tree and not refused. -/
theorem writeName (h : Contract s F P R Raw E) {op? : Option AssignOp} {name : String}
    (hF : F (.written op? name)) (hname : s.refuses name = false) (scope? : Option ScopeId)
    (v : Value) : Obeys R Raw (writeName s scope? name v) := by
  have hset {m : Machine} (hm : m.references.Valid) (id : ScopeId) :
      Meets R Raw m (Eval.commit s name (m.env.setOwn id name v) m) :=
    h.commit hm (fun env => h.setOwn hF hname) (h.cause _) (fun _ => h.cause _) fun _ => h.cause _
  intro m hm
  cases scope? with
  | some id => exact hset hm id
  | none =>
    change Meets R Raw m
      ((if s.strict then Eval.fail (.undeclared name)
        else Eval.commit s name (m.env.defineOrAssign name v) : Eval Unit) m)
    cases hstrict : s.strict with
    | true => exact .error hm (h.refl m.env) (h.cause _)
    | false =>
      rw [if_neg Bool.false_ne_true, Environment.defineOrAssign]
      cases hresolve : m.env.resolve? name with
      | some id => exact hset hm id
      | none => exact .ok hm (h.declare hF hname hstrict hresolve)

/-- An assignment that puts its reference into the pool meanwhile. -/
theorem assignThrough (h : Contract s F P R Raw E) {op : AssignOp} {n : Node} {r : Reference}
    (hn : Obeys R E (evaluate s n)) (hwrite : ∀ v, Obeys R Raw (r.write s v)) :
    Obeys R Raw (Eval.withReference r (assignThrough s op (evaluate s n))) := by
  intro m hm
  have hvalid : (m.acquire r).2.references.Valid := hm.acquire r
  have hread := h.closed.read r
  rw [withReference_assignThrough s op n r hm]
  exact h.withReference (h.closed.assignBy (h.weaken hn) hread hwrite hvalid)

/-- A plain assignment to a name. -/
theorem assignName (h : Contract s F P R Raw E) {op? : Option AssignOp} {name : String}
    (hF : F (.written op? name)) (isFunction : Bool) {value : Eval Value}
    (hvalue : Obeys R E value) : Obeys R Raw (assignName s name isFunction value) := by
  refine h.checked (fun _ => h.cause _) fun hname => look fun m => ?_
  refine h.bind (h.weaken hvalue) fun v => ?_
  have hwrite := h.writeName hF hname (m.env.resolve? name) v
  cases isFunction with
  | true => exact h.bind (h.lift (h.naming v name)) fun _ => h.bind hwrite fun _ => h.pure v
  | false => exact h.bind hwrite fun _ => h.pure v

/-- Any other assignment to a name. The refusal of a reserved name has no place. -/
theorem assignNameThrough (h : Contract s F P R Raw E) {op : AssignOp} {name : String}
    {span : Span} {n : Node} (hop : op ≠ .assign) (hF : F (.written (some op) name))
    (hspan : F (.position span)) (hn : Obeys R E (evaluate s n)) :
    Obeys R E (assignNameThrough s op name (evaluate s n) span) := by
  refine h.checked (fun hname => h.escape (.reserved hop hname hF)) fun hname => ?_
  intro m hm
  have hwrite := h.writeName hF hname
  have hassign (r : Reference) (hr : ∀ v, Obeys R Raw (r.write s v)) :
      Meets R E m (Eval.locate span
        (Eval.withReference r (Eval.assignThrough s op (evaluate s n))) m) :=
    h.locate hspan (h.assignThrough hn hr) hm
  rw [bind_of_ok (nameReference_eq name m)]
  cases m.env.resolve? name with
  | some scope => exact hassign (.binding name scope) (hwrite (some scope))
  | none => exact hassign (.unresolvable name) (hwrite none)

/-- A write to an element of a pattern. The name was resolved just before, so the scope that it was
found in declares it. -/
theorem assignElement (h : Contract s F P R Raw E) {name : String} (hF : F (.written none name))
    (v : Value) : Obeys R E (assignElement s name v) := by
  refine h.checked (fun hname => h.escape (.reservedElement hname hF)) fun hname => ?_
  intro m hm
  have hvalid (r : Reference) : (m.acquire r).2.references.Valid := hm.acquire r
  rw [bind_of_ok (nameReference_eq name m), withReference_putValue s v _ hm]
  cases hresolve : m.env.resolve? name with
  | some scope =>
    have hdeclares := Environment.declares_of_resolve? hresolve
    refine h.withReference (h.commit (hvalid _) (fun env hset => h.setOwn hF hname hset)
      (h.escape (.constantElement hF)) (fun hstrict => h.escape (.readOnlyElement hstrict hF))
      fun hset => ?_)
    have hundeclared := Environment.not_declares_of_setOwn hset
    exact absurd (hdeclares.symm.trans hundeclared) Bool.noConfusion
  | none =>
    refine h.withReference ?_
    change Meets R E (m.acquire (.unresolvable name)).2
      ((if s.strict then Eval.fail (.undeclared name)
        else Eval.commit s name (m.env.defineOrAssign name v) : Eval Unit)
          (m.acquire (.unresolvable name)).2)
    cases hstrict : s.strict with
    | true =>
      have hescape := h.escape (.undeclaredElement hstrict hF)
      exact .error (hvalid _) (h.refl m.env) hescape
    | false =>
      rw [if_neg Bool.false_ne_true, Environment.defineOrAssign, hresolve]
      exact .ok (hvalid _) (h.declare hF hname hstrict hresolve)

/-! ### Sources of patterns -/

/-- An array pattern refuses what it cannot take elements from. -/
theorem elementSource (h : Contract s F P R Raw E) (hF : F .arrayPattern) (v : Value) :
    Obeys R E (Eval.lift (elementSource v)) := by
  intro m hm
  have hsource := elementSource_cases v m.world
  unfold Eval.lift
  rcases hsource with ⟨source, hok⟩ | ⟨text, herror⟩
  · rw [hok]
    exact .ok hm (h.refl m.env)
  · rw [herror]
    exact .error hm (h.refl m.env) (h.escape (.notIterable hF))

/-- What follows the question whether a value has properties. -/
theorem checkedRecord (h : Contract s F P R Raw E) {keys : List String}
    (hF : F (.objectPattern keys)) {v : Value} {f : Unit → Eval α}
    (hf : v.isNullish = false → Obeys R E (f ())) :
    Obeys R E (Eval.lift (checkRecord keys v) >>= f) := by
  intro m hm
  cases v with
  | object id => exact hf rfl hm
  | primitive p =>
    have hescape (base : String) : E (.ofCause (.propertyOfNullish (keys.headD "") base)) :=
      h.escape (.nullish hF)
    cases p with
    | undefined | null => exact .error hm (h.refl m.env) (hescape _)
    | _ => exact hf rfl hm

/-! ### Trees -/

/-- An evaluation for the value that there may be. -/
theorem forM (h : Contract s F P R Raw E) (a? : Option α) {f : α → Eval Unit}
    (hf : ∀ a, Obeys R E (f a)) : Obeys R E (a?.forM f) := by
  cases a? with
  | none => exact h.pure ()
  | some a => exact hf a

/-- What is called, when it is no member. -/
theorem callee_of_ne_member (h : Contract s F P R Raw E) {n : Node} (hn : ∀ m, n ≠ .member m)
    (hcallee : Obeys R E (ScriptOps.evaluate s n)) : Obeys R E (evaluateCallee s n) := by
  rw [evaluateCallee_of_ne_member s hn]
  exact h.bind hcallee fun _ => h.pure _

mutual

/-- A tree whose features pass the test obeys the contract. -/
theorem evaluate (h : Contract s F P R Raw E) :
    (n : Node) → (∀ f ∈ n.features, F f) → Obeys R E (evaluate s n)
  | .constant v, _ => by
    rw [ScriptOps.evaluate]
    exact h.pure v
  | .identifier name span, hF => by
    rw [ScriptOps.evaluate]
    have hspan := hF (.position span) (by simp [Node.features])
    refine look fun m => ?_
    split
    · exact h.pure _
    · exact h.locate hspan (h.fail (h.cause _))
  | .member m, hF => by
    rw [ScriptOps.evaluate]
    rw [Node.features] at hF
    have hspan := hF _ m.position_mem_features
    refine h.bind (evaluateParts h m hF) fun (base, key) => ?_
    exact h.locate hspan (h.lift (h.steps.getProperty base key))
  | .call callee args span, hF => by
    rw [Node.features, List.forall_mem_cons, List.forall_mem_append] at hF
    obtain ⟨hspan, hcallee, hargs⟩ := hF
    rw [evaluate_call]
    refine h.bind ?_ fun (callee, receiver) => h.bind (evaluateAll h args hargs) fun args =>
      h.locate hspan (h.lift (h.steps.callValue callee receiver args))
    -- a member that is called is read at its own position, and its object is the receiver
    cases callee with
    | member m =>
      rw [Node.features] at hcallee
      have hplace := hcallee _ m.position_mem_features
      rw [evaluateCallee]
      refine h.bind (evaluateParts h m hcallee) fun (receiver, key) => ?_
      exact h.bind (h.locate hplace (h.lift (h.steps.getProperty receiver key))) fun _ => h.pure _
    | _ => exact h.callee_of_ne_member (by simp) (evaluate h _ hcallee)
  | .function name? kind, _ => by
    rw [ScriptOps.evaluate]
    exact h.bind (h.lift_total fun _ => ⟨_, _, rfl⟩) fun _ => h.pure _
  | .array elements, hF => by
    rw [Node.features] at hF
    rw [ScriptOps.evaluate]
    refine h.bind (evaluateAll h elements hF) fun _ => ?_
    exact h.bind (h.lift_total fun _ => ⟨_, _, rfl⟩) fun _ => h.pure _
  | .object entries, hF => by
    rw [Node.features] at hF
    rw [ScriptOps.evaluate]
    refine h.bind (h.lift_total fun _ => ⟨_, _, rfl⟩) fun id => ?_
    exact h.bind (evaluateEntries h id entries hF) fun _ => h.pure _
  | .binary op left right span, hF => by
    rw [Node.features, List.forall_mem_cons, List.forall_mem_append] at hF
    obtain ⟨hspan, hleft, hright⟩ := hF
    rw [ScriptOps.evaluate]
    refine h.bind (evaluate h left hleft) fun l => h.bind (evaluate h right hright) fun r => ?_
    refine h.bind (h.quiet fun _ => ⟨_, _, rfl, rfl, rfl⟩) fun _ => ?_
    exact h.locate hspan (h.closed.operate op l r)
  | .assign op (.identifier name) value span, hF => by
    rw [Node.features, List.forall_mem_cons, List.forall_mem_append] at hF
    obtain ⟨hspan, htarget, hvalue⟩ := hF
    have hname := htarget (.written (some op) name) (by simp [Target.features])
    have hright := evaluate h value hvalue
    rw [ScriptOps.evaluate]
    split
    · exact h.locate hspan (h.assignName hname _ hright)
    · next hop => exact h.assignNameThrough hop hname hspan hright
  | .assign op (.member m) value span, hF => by
    rw [Node.features, List.forall_mem_cons, List.forall_mem_append] at hF
    obtain ⟨hspan, htarget, hvalue⟩ := hF
    rw [Target.features] at htarget
    have hright := evaluate h value hvalue
    rw [ScriptOps.evaluate]
    refine h.bind (evaluateParts h m htarget) fun (base, key) => ?_
    refine h.locate hspan (h.assignThrough hright fun v => ?_)
    exact h.lift (h.steps.putProperty s.strict base key v)
  | .assign op (.pattern p) value span, hF => by
    rw [Node.features, List.forall_mem_cons, List.forall_mem_append] at hF
    obtain ⟨-, htarget, hvalue⟩ := hF
    rw [Target.features] at htarget
    rw [ScriptOps.evaluate]
    refine h.bind (evaluate h value hvalue) fun v => ?_
    exact h.bind (assignPattern h p v htarget) fun _ => h.pure v
  | .assign op (.invalid n) value span, hF => by
    rw [Node.features, List.forall_mem_cons, List.forall_mem_append] at hF
    obtain ⟨hspan, htarget, -⟩ := hF
    rw [Target.features, List.forall_mem_cons] at htarget
    rw [ScriptOps.evaluate]
    exact h.bind (evaluate h n htarget.2) fun _ => h.locate hspan (h.fail (h.cause _))

/-- Lists of trees, from left to right. -/
theorem evaluateAll (h : Contract s F P R Raw E) :
    (ns : List Node) → (∀ f ∈ Node.featuresAll ns, F f) → Obeys R E (evaluateAll s ns)
  | [], _ => by
    rw [ScriptOps.evaluateAll]
    exact h.pure _
  | n :: rest, hF => by
    rw [Node.featuresAll, List.forall_mem_append] at hF
    obtain ⟨hn, hrest⟩ := hF
    rw [ScriptOps.evaluateAll]
    exact h.bind (evaluate h n hn) fun _ => h.bind (evaluateAll h rest hrest) fun _ => h.pure _

/-- The entries of an object literal. -/
theorem evaluateEntries (h : Contract s F P R Raw E) (id : ObjectId) :
    (entries : List (String × Node)) → (∀ f ∈ Node.featuresEntries entries, F f) →
      Obeys R E (evaluateEntries s id entries)
  | [], _ => by
    rw [ScriptOps.evaluateEntries]
    exact h.pure _
  | (key, n) :: rest, hF => by
    rw [Node.featuresEntries, List.forall_mem_append] at hF
    obtain ⟨hn, hrest⟩ := hF
    rw [ScriptOps.evaluateEntries]
    refine h.bind (evaluate h n hn) fun v => ?_
    exact h.bind (h.lift_total (Action.assign_total id key v)) fun _ =>
      evaluateEntries h id rest hrest

/-- The object and the key of a member. -/
theorem evaluateParts (h : Contract s F P R Raw E) :
    (m : Member) → (∀ f ∈ m.features, F f) → Obeys R E (evaluateParts s m)
  | .mk object (.named name) span, hF => by
    rw [Member.features, List.forall_mem_cons, List.forall_mem_append] at hF
    obtain ⟨-, hobject, -⟩ := hF
    rw [ScriptOps.evaluateParts]
    exact h.bind (evaluate h object hobject) fun _ => h.pure _
  | .mk object (.computed key) span, hF => by
    rw [Member.features, List.forall_mem_cons, List.forall_mem_append] at hF
    obtain ⟨hspan, hobject, hkey⟩ := hF
    rw [Key.features] at hkey
    rw [ScriptOps.evaluateParts]
    refine h.bind (evaluate h object hobject) fun base => ?_
    refine h.bind (evaluate h key hkey) fun v => ?_
    exact h.bind (h.locate hspan (h.lift (h.steps.computedKey base v))) fun _ => h.pure _

/-- The targets that are elements of patterns. -/
theorem assignTarget (h : Contract s F P R Raw E) (v : Value) :
    (target : Target) → (∀ f ∈ target.features none, F f) → Obeys R E (assignTarget s v target)
  | .identifier name, hF => by
    have hname := hF (.written none name) (by simp [Target.features])
    rw [ScriptOps.assignTarget]
    exact h.assignElement hname v
  | .member m, hF => by
    rw [Target.features] at hF
    have hspan := hF _ m.position_mem_features
    rw [ScriptOps.assignTarget]
    refine h.bind (evaluateParts h m hF) fun (base, key) => ?_
    exact h.locate hspan (h.lift (h.steps.putProperty s.strict base key v))
  | .pattern p, hF => by
    rw [Target.features] at hF
    rw [ScriptOps.assignTarget]
    exact assignPattern h p v hF
  | .invalid n, hF => by
    rw [Target.features, List.forall_mem_cons] at hF
    obtain ⟨hinvalid, hn⟩ := hF
    rw [ScriptOps.assignTarget]
    exact h.bind (evaluate h n hn) fun _ => h.fail (h.escape (.invalidElement hinvalid))

/-- Patterns, in each way of taking a value apart. -/
theorem assignPattern (h : Contract s F P R Raw E) :
    (p : Pattern) → (v : Value) → (∀ f ∈ p.features, F f) → Obeys R E (assignPattern s p v)
  | .array targets, v, hF => by
    rw [Pattern.features, List.forall_mem_cons] at hF
    obtain ⟨harray, htargets⟩ := hF
    rw [ScriptOps.assignPattern]
    cases s.destructuring with
    | elementwise =>
      exact h.bind (h.elementSource harray v) fun source =>
        assignElements h source 0 targets htargets
    | shared share =>
      exact h.bind (h.lift_total fun _ => ⟨_, _, rfl⟩) fun _ =>
        assignShares h share v 0 targets htargets
  | .object entries, v, hF => by
    rw [Pattern.features, List.forall_mem_cons] at hF
    obtain ⟨hobject, hentries⟩ := hF
    rw [ScriptOps.assignPattern]
    cases s.destructuring with
    | elementwise =>
      exact h.checkedRecord hobject fun hv => assignProperties h v hv entries hentries
    | shared share =>
      exact h.bind (h.lift_total fun _ => ⟨_, _, rfl⟩) fun _ =>
        assignShareEntries h share v entries hentries

/-- The elements of a source. -/
theorem assignElements (h : Contract s F P R Raw E) (source : ElementSource) (index : Nat) :
    (targets : List (Option Target)) → (∀ f ∈ Target.featuresSlots targets, F f) →
      Obeys R E (assignElements s source index targets)
  | [], _ => by
    rw [ScriptOps.assignElements]
    exact h.pure _
  | none :: rest, hF => by
    rw [Target.featuresSlots] at hF
    rw [ScriptOps.assignElements]
    exact assignElements h source (index + 1) rest hF
  | some target :: rest, hF => by
    rw [Target.featuresSlots, List.forall_mem_append] at hF
    obtain ⟨htarget, hrest⟩ := hF
    rw [ScriptOps.assignElements]
    exact look fun m => h.bind (assignTarget h _ target htarget) fun _ =>
      assignElements h source (index + 1) rest hrest

/-- The properties of a source that has properties. -/
theorem assignProperties (h : Contract s F P R Raw E) (source : Value)
    (hsource : source.isNullish = false) : (entries : List (String × Target)) →
      (∀ f ∈ Target.featuresEntries entries, F f) → Obeys R E (assignProperties s source entries)
  | [], _ => by
    rw [ScriptOps.assignProperties]
    exact h.pure _
  | (key, target) :: rest, hF => by
    rw [Target.featuresEntries, List.forall_mem_append] at hF
    obtain ⟨htarget, hrest⟩ := hF
    rw [ScriptOps.assignProperties]
    refine h.bind (h.lift_total (getProperty_total hsource key)) fun v => ?_
    exact h.bind (assignTarget h v target htarget) fun _ =>
      assignProperties h source hsource rest hrest

/-- The parts that a collaborator gives by position. -/
theorem assignShares (h : Contract s F P R Raw E) (share : Share) (v : Value) (index : Nat) :
    (targets : List (Option Target)) → (∀ f ∈ Target.featuresSlots targets, F f) →
      Obeys R E (assignShares s share v index targets)
  | [], _ => by
    rw [ScriptOps.assignShares]
    exact h.pure _
  | none :: rest, hF => by
    rw [Target.featuresSlots] at hF
    rw [ScriptOps.assignShares]
    exact assignShares h share v (index + 1) rest hF
  | some target :: rest, hF => by
    rw [Target.featuresSlots, List.forall_mem_append] at hF
    obtain ⟨htarget, hrest⟩ := hF
    rw [ScriptOps.assignShares]
    refine look fun m => h.bind (h.forM _ fun part => ?_) fun _ => ?_
    · exact assignTarget h part target htarget
    · exact assignShares h share v (index + 1) rest hrest

/-- The parts that a collaborator gives by key. -/
theorem assignShareEntries (h : Contract s F P R Raw E) (share : Share) (v : Value) :
    (entries : List (String × Target)) → (∀ f ∈ Target.featuresEntries entries, F f) →
      Obeys R E (assignShareEntries s share v entries)
  | [], _ => by
    rw [ScriptOps.assignShareEntries]
    exact h.pure _
  | (key, target) :: rest, hF => by
    rw [Target.featuresEntries, List.forall_mem_append] at hF
    obtain ⟨htarget, hrest⟩ := hF
    rw [ScriptOps.assignShareEntries]
    refine look fun m => h.bind (h.forM _ fun part => ?_) fun _ => ?_
    · exact assignTarget h part target htarget
    · exact assignShareEntries h share v rest hrest

end

end Eval.Contract

end ScriptOps
