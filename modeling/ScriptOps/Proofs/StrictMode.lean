import ScriptOps.Proofs.Simulation

/-!
# Strict code only fails more often

Strictness is asked for in few places: where a reserved name is assigned to, where a name without a
binding or a binding that is read-only is written, and where a property is refused. In each of them
strict code fails at once, and otherwise does what sloppy code does. `Stricter` says this of two
effects. It is kept by sequencing, so the induction over trees carries it to whole evaluations:
either both runs come to the same, with the same machine, or the strict one fails for one of these
causes.
-/

namespace ScriptOps

open Eval

/-- Whether only strict code fails for a cause when it writes. -/
def Cause.isStrict : Cause → Bool
  | reservedName _ | undeclared _ | readOnlyBinding _ | readOnlyProperty ..
  | propertyOfPrimitive .. =>
    true
  | _ => false

/-- The first effect comes to the same as the second one, or it fails for a strict cause. -/
def Stricter ⦃σ α : Type⦄ (x y : EStateM Error σ α) : Prop :=
  ∀ s, x s = y s ∨ ∃ e s', x s = .error e s' ∧ e.cause.isStrict

namespace Stricter

section Sequencing

variable {σ α β : Type}

theorem refl (x : EStateM Error σ α) : Stricter x x :=
  fun _ => .inl rfl

/-- A strict failure is stricter than anything. -/
theorem throw {c : Cause} (hc : c.isStrict) (y : EStateM Error σ α) :
    Stricter (throw (.ofCause c)) y :=
  fun s => .inr ⟨.ofCause c, s, rfl, hc⟩

/-- What follows a strict failure does not happen. -/
theorem bind {x y : EStateM Error σ α} {f g : α → EStateM Error σ β} (hxy : Stricter x y)
    (hfg : ∀ a, Stricter (f a) (g a)) : Stricter (x >>= f) (y >>= g) := by
  intro s
  rcases hxy s with hsame | ⟨e, s', hfails, he⟩
  · cases hy : y s with
    | ok a s' =>
      rw [bind_of_ok (hsame.trans hy), bind_of_ok hy]
      exact hfg a s'
    | error e s' =>
      rw [bind_of_error (hsame.trans hy), bind_of_error hy]
      exact .inl rfl
  · exact .inr ⟨e, s', bind_of_error hfails, he⟩

end Sequencing

variable {α : Type}

/-- The place of a strict failure makes no difference. -/
theorem locate {x y : Eval α} (span : Span) (h : Stricter x y) :
    Stricter (locate span x) (locate span y) := by
  intro m
  unfold Eval.locate
  rcases h m with hsame | ⟨e, m', hfails, he⟩
  · rw [hsame]
    exact .inl rfl
  · rw [hfails]
    exact .inr ⟨e.locate span, m', rfl, by rwa [Error.cause_locate]⟩

/-- A stricter effect on the world is a stricter step of evaluation. -/
theorem lift {x y : Action α} (h : Stricter x y) : Stricter (lift x) (lift y) := by
  intro m
  unfold Eval.lift
  rcases h m.world with hsame | ⟨e, w, hfails, he⟩
  · rw [hsame]
    exact .inl rfl
  · rw [hfails]
    exact .inr ⟨e, { m with world := w }, rfl, he⟩

/-- The slot is given back after a strict failure as well. -/
theorem withReference (r : Reference) {x y : RefId → Eval α} (h : ∀ id, Stricter (x id) (y id)) :
    Stricter (withReference r x) (withReference r y) := by
  intro m
  unfold Eval.withReference
  generalize m.acquire r = acquired
  obtain ⟨id, m₁⟩ := acquired
  dsimp only
  rcases h id m₁ with hsame | ⟨e, m₂, hfails, he⟩
  · rw [hsame]
    exact .inl rfl
  · rw [hfails]
    exact .inr ⟨e, m₂.release id, rfl, he⟩

end Stricter

/-! ### Where strictness is asked for -/

/-- The settings for strict code. -/
def Settings.asStrict (s : Settings) : Settings :=
  { s with strict := true }

/-- The settings for sloppy code. -/
def Settings.asSloppy (s : Settings) : Settings :=
  { s with strict := false }

namespace Stricter

variable (s : Settings)

/-- The check of reserved names fails in strict mode only. -/
theorem checkReserved (name : String) :
    Stricter (checkReserved s.asStrict name) (checkReserved s.asSloppy name) := by
  unfold Eval.checkReserved
  by_cases hname : (name == "eval" || name == "arguments") = true
  · simp only [Settings.asStrict, hname]
    exact throw rfl _
  · simp only [Settings.asStrict, Settings.asSloppy, hname]
    exact refl _

/-- A write that a binding refuses is an error in strict mode only. -/
theorem commit (name : String) (written : Except BindingError Environment) :
    Stricter (commit s.asStrict name written) (commit s.asSloppy name written) := by
  cases written with
  | ok env => exact refl _
  | error cause =>
    cases cause with
    | immutable | undeclared => exact refl _
    | readOnly => exact throw rfl _

/-- Strict mode only adds errors to writes to names. -/
theorem writeName (scope? : Option ScopeId) (name : String) (v : Value) :
    Stricter (writeName s.asStrict scope? name v) (writeName s.asSloppy scope? name v) := by
  refine (refl get).bind fun m => ?_
  cases scope? with
  | some id => exact commit s name _
  | none => exact throw rfl _

/-- An object may refuse a property, and a primitive takes none. -/
theorem putProperty (base : Value) (key : String) (v : Value) :
    Stricter (putProperty true base key v) (putProperty false base key v) := by
  cases base with
  | object id =>
    refine (refl (Action.assign id key v)).bind fun accepted => ?_
    cases accepted with
    | true => exact refl _
    | false =>
      intro w
      exact .inr ⟨_, w, rfl, rfl⟩
  | primitive p =>
    cases p with
    | undefined | null => exact refl _
    | bool | int | number | str => exact throw rfl _

/-- Writing a reference. -/
theorem write (r : Reference) (v : Value) :
    Stricter (r.write s.asStrict v) (r.write s.asSloppy v) := by
  cases r with
  | binding name scope => exact writeName s (some scope) name v
  | unresolvable name => exact writeName s none name v
  | property base key => exact (putProperty base key v).lift

/-- Strict mode only adds errors to writes through handles. -/
theorem putValue (id : RefId) (v : Value) :
    Stricter (putValue s.asStrict id v) (putValue s.asSloppy id v) := by
  rw [putValue_eq, putValue_eq]
  exact (refl (pooled id)).bind fun r => write s r v

/-- An assignment asks for strictness when it writes, and where its right-hand side does. -/
theorem assignThrough (op : AssignOp) {x y : Eval Value} (hxy : Stricter x y) (id : RefId) :
    Stricter (assignThrough s.asStrict op x id) (assignThrough s.asSloppy op y id) := by
  rw [assignThrough_eq_assignBy, assignThrough_eq_assignBy]
  exact assignBy_related (M := fun _ x y => Stricter x y) (fun a => refl (pure a)) bind hxy
    (refl (getValue id)) (putValue s id) (refl _) fun op l r => refl (operate s op l r)

/-- So evaluation under both settings is related as a whole. -/
theorem simulation :
    Eval.Simulation s.asStrict s.asSloppy (fun _ _ => True) fun _ x y => Stricter x y where
  host := rfl
  destructuring := rfl
  steps := .trivial s.host
  naming _ _ := trivial
  pure a := refl (Pure.pure a)
  bind hx hf := hx.bind hf
  look hfg m := hfg m m ⟨rfl, rfl⟩ m
  lift _ := refl _
  fail _ := refl _
  locate span h := h.locate span
  count := refl _
  operate op l r := refl (operate s op l r)
  checkReserved := checkReserved s
  writeName := writeName s
  putProperty base key v := (putProperty base key v).lift
  putThrough r v := withReference r fun id => putValue s id v
  assignThrough r op _ _ hxy := withReference r fun id => assignThrough s op hxy id

/-- Strict mode only adds errors to evaluation. -/
theorem evaluate (n : Node) : Stricter (evaluate s.asStrict n) (evaluate s.asSloppy n) :=
  (simulation s).evaluate_self (fun _ _ _ => trivial) n

end Stricter

/-- Strict mode only adds errors. On every machine the strict run of a tree comes to what the sloppy
run comes to, value or error and machine, or it fails for a cause that strict mode adds. So where it
comes to a value, the sloppy run comes to the same value and leaves the same bindings, heap,
counters and trace; and where the sloppy run fails, it fails too. -/
theorem strict_mode_only_adds_errors (s : Settings) (n : Node) (m : Machine) :
    (evaluate s.asStrict n m = evaluate s.asSloppy n m ∨
      ∃ e m', evaluate s.asStrict n m = .error e m' ∧ e.cause.isStrict) ∧
    (∀ v m', evaluate s.asStrict n m = .ok v m' → evaluate s.asSloppy n m = .ok v m') ∧
    ∀ e m', evaluate s.asSloppy n m = .error e m' →
      ∃ e' m'', evaluate s.asStrict n m = .error e' m'' := by
  have hstricter := Stricter.evaluate s n m
  refine ⟨hstricter, fun v m' hok => ?_, fun e m' hfails => ?_⟩
  · rcases hstricter with hsame | ⟨e, m'', hstrict, _⟩
    · exact hsame.symm.trans hok
    · nomatch hok.symm.trans hstrict
  · rcases hstricter with hsame | ⟨e', m'', hstrict, _⟩
    · exact ⟨e, m', hsame.trans hfails⟩
    · exact ⟨e', m'', hstrict⟩

/-- It does add some: sloppy code declares the name that strict code refuses. -/
example (s : Settings) :
    let n : Node := .assign .assign (.identifier "x") (.constant (.bool true)) ⟨0, 8⟩
    let m : Machine := .start ⟨.empty, []⟩ none .empty
    let env := m.env.defineGlobal "x" (.bool true) .mutable
    evaluate s.asStrict n m = .error ⟨.undeclared "x", some ⟨0, 8⟩⟩ m ∧
      evaluate s.asSloppy n m = .ok (.bool true) { m with env } :=
  ⟨rfl, rfl⟩

end ScriptOps
