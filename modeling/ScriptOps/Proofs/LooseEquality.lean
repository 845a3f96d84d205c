import ScriptOps.Proofs.ConversionOrder
import ScriptOps.Proofs.FastPaths

/-!
# Loose equality

Loose equality is usually told as a recursion. A pass over two operands answers, or it replaces a
boolean by its number, or an object by its primitive, and goes on with the operands it now has.
`Host.equalityPass` is one pass and `Host.EqualityRun` a run of passes with the operands that were
converted. There is exactly one run for any two operands, it ends as `Host.looseEquals` does, and at
most one operand is converted in it, once.

Loose equality is symmetric, if the host finds its objects equal both ways around, and it extends
strict equality.
-/

namespace ScriptOps

/-! ### Primitives -/

namespace Primitive

/-- Strict equality of primitives does not depend on their order. -/
theorem strictEq_comm (p q : Primitive) : p.strictEq q = q.strictEq p := by
  cases p <;> cases q <;> first | rfl | exact BEq.comm

/-- Neither does loose equality. -/
theorem looseEq_comm (p q : Primitive) : p.looseEq q = q.looseEq p := by
  unfold looseEq
  by_cases htype : p.type = q.type
  · rw [if_pos htype, if_pos htype.symm, strictEq_comm]
  · rw [if_neg htype, if_neg (Ne.symm htype), Bool.or_comm, Bool.and_comm,
      BEq.comm (a := p.toFloat)]

/-- Null and undefined are equal to each other, and to no other primitive. -/
theorem looseEq_of_isNullish {p : Primitive} (hp : p.isNullish) (q : Primitive) :
    p.looseEq q = q.isNullish := by
  cases p <;> cases q <;> first | rfl | cases hp

/-- Primitives that are strictly equal are loosely equal. -/
theorem looseEq_of_strictEq {p q : Primitive} (h : p.strictEq q) : p.looseEq q := by
  have htype : p.type = q.type := by
    cases p <;> cases q <;> first | rfl | cases h
  rw [looseEq, if_pos htype, h]

/-- The number of a boolean. -/
def bit (b : Bool) : Primitive :=
  .int (if b then 1 else 0)

/-- A bit is no boolean. -/
theorem type_bit (b : Bool) : (bit b).type ≠ .boolean :=
  nofun

/-- The number of a boolean is its bit. -/
theorem ofFloat_bool (b : Bool) : ofFloat (bool b).toFloat = bit b := by
  cases b <;> rfl

/-- A boolean is equal to what its number is equal to. -/
theorem looseEq_bit (b : Bool) (q : Primitive) : (bit b).looseEq q = (bool b).looseEq q := by
  have hfloat : (bit b).toFloat = (bool b).toFloat := by cases b <;> rfl
  cases q with
  | undefined | null => rfl
  | bool b' => cases b <;> cases b' <;> rfl
  | int i =>
    change (bit b).strictEq (int i) = ((bool b).toFloat == floatOfInt i.toInt)
    rw [← hfloat]
    exact strictEq_of_float? rfl rfl
  | number x =>
    change ((bit b).toFloat == x) = ((bool b).toFloat == x)
    rw [hfloat]
  | str s =>
    change ((bit b).toFloat == numberOfText s) = ((bool b).toFloat == numberOfText s)
    rw [hfloat]

/-- A primitive is a boolean or has another type. -/
theorem ne_boolean_or (p : Primitive) : p.type ≠ .boolean ∨ ∃ b, p = bool b := by
  cases p <;> first | exact .inr ⟨_, rfl⟩ | exact .inl nofun

end Primitive

/-! ### Symmetry -/

namespace Host

variable (host : Host)

/-- Observing a comparison leaves the heap alone and never fails. -/
theorem observeComparison_run (x y : Value) (w : World) :
    ∃ w', host.observeComparison x y w = .ok () w' ∧ w'.heap = w.heap := by
  have hlook : Action.heap w = .ok w.heap w := rfl
  rw [observeComparison, bind_of_ok hlook]
  cases w.heap.hostPair? x y with
  | none => exact ⟨w, rfl, rfl⟩
  | some pair =>
    dsimp only
    cases (host.equality? pair.1).isSome with
    | true => exact ⟨_, rfl, rfl⟩
    | false => exact ⟨w, rfl, rfl⟩

/-- The host may be asked to compare what the objects wrap, which changes no heap. -/
theorem strictEquals_run (x y : Value) (w : World) :
    ∃ w', host.strictEquals x y w = .ok (host.strictEq w.heap x y) w' ∧ w'.heap = w.heap := by
  obtain ⟨w', hrun, hheap⟩ := host.observeComparison_run x y w
  refine ⟨w', ?_, hheap⟩
  rw [strictEquals, bind_of_ok hrun, ← hheap]
  rfl

variable {host}

/-- Strict equality does not depend on the order, if the comparisons of the host do not. -/
theorem strictEq_comm (hsymm : ∀ a b, host.equates a b = host.equates b a) (h : Heap)
    (x y : Value) : host.strictEq h x y = host.strictEq h y x := by
  cases x with
  | primitive p =>
    cases y with
    | primitive q => exact p.strictEq_comm q
    | object id => rfl
  | object a =>
    cases y with
    | primitive q => rfl
    | object b =>
      unfold strictEq Heap.hostPair?
      dsimp only
      by_cases hab : a = b
      · subst hab
        rfl
      · rw [if_neg hab, if_neg (Ne.symm hab), BEq.comm (a := a)]
        congr 1
        cases (h.kind a).host? <;> cases (h.kind b).host? <;> first | rfl | exact hsymm _ _

/-- The outcomes differ at most in what was observed. -/
abbrev SameOutcome : EStateM.Result Error World Bool → EStateM.Result Error World Bool → Prop :=
  Agree Eq Eq fun w w' => w.heap = w'.heap

/-- Every outcome is the same as itself. -/
theorem sameOutcome_refl (out : EStateM.Result Error World Bool) : SameOutcome out out := by
  cases out with
  | ok b w => exact .ok rfl rfl
  | error e w => exact .error rfl rfl

/-- Only objects can tell which of them is on the left. -/
theorem looseEquals_comm_of_primitive (p : Primitive) (y : Value) :
    host.looseEquals p y = host.looseEquals y p := by
  cases y with
  | primitive q =>
    unfold looseEquals
    dsimp only
    rw [p.looseEq_comm q]
  | object id =>
    unfold looseEquals
    dsimp only
    simp only [p.looseEq_comm]

/-- Nor does loose equality: the outcome, the callbacks and the heap are the same. -/
theorem looseEquals_comm (hsymm : ∀ a b, host.equates a b = host.equates b a) (x y : Value)
    (w : World) : SameOutcome (host.looseEquals x y w) (host.looseEquals y x w) ∧
      (host.looseEquals x y).callbacks w = (host.looseEquals y x).callbacks w := by
  cases x with
  | primitive p =>
    rw [looseEquals_comm_of_primitive]
    exact ⟨sameOutcome_refl _, rfl⟩
  | object a =>
    cases y with
    | primitive q =>
      rw [← looseEquals_comm_of_primitive q]
      exact ⟨sameOutcome_refl _, rfl⟩
    | object b =>
      obtain ⟨w₁, hrun, hheap⟩ := host.strictEquals_run (.object a) (.object b) w
      obtain ⟨w₂, hrun', hheap'⟩ := host.strictEquals_run (.object b) (.object a) w
      constructor
      · change SameOutcome (host.strictEquals (.object a) (.object b) w)
          (host.strictEquals (.object b) (.object a) w)
        rw [hrun, hrun', strictEq_comm hsymm]
        exact .ok rfl (hheap.trans hheap'.symm)
      · exact ((Action.IsSilent.strictEquals host _ _).callbacks_eq w).trans
          ((Action.IsSilent.strictEquals host _ _).callbacks_eq w).symm

/-! ### Special cases -/

/-- What is strictly equal is loosely equal, with nothing else observed and nothing converted. -/
theorem looseEquals_of_strictEquals {x y : Value} {w w' : World}
    (h : host.strictEquals x y w = .ok true w') :
    host.looseEquals x y w = .ok true w' ∧ BinaryOp.looseEq.converted x y = [] := by
  cases x with
  | primitive p =>
    cases y with
    | primitive q =>
      change EStateM.Result.ok (p.strictEq q) w = .ok true w' at h
      injection h with hstrict hw
      subst hw
      refine ⟨?_, rfl⟩
      change EStateM.Result.ok (p.looseEq q) w = .ok true w
      rw [Primitive.looseEq_of_strictEq hstrict]
    | object id => cases h
  | object a =>
    cases y with
    | primitive q => cases h
    | object b => exact ⟨h, rfl⟩

/-- Null and undefined are loosely equal to each other, and to nothing else. -/
theorem looseEquals_of_isNullish {p : Primitive} (hp : p.isNullish) (y : Value) (w : World) :
    host.looseEquals p y w = .ok y.isNullish w := by
  cases y with
  | primitive q =>
    change EStateM.Result.ok (p.looseEq q) w = _
    rw [Primitive.looseEq_of_isNullish hp]
    rfl
  | object id =>
    unfold looseEquals
    dsimp only
    rw [if_pos hp]
    rfl

/-- A boolean on the left is compared as its bit. -/
theorem looseEquals_bit (b : Bool) (y : Value) :
    host.looseEquals (Primitive.bit b) y = host.looseEquals (Primitive.bool b) y := by
  cases y with
  | primitive q =>
    unfold looseEquals
    dsimp only
    rw [Primitive.looseEq_bit]
  | object id =>
    have hbit : (Primitive.bit b).isNullish = (Primitive.bool b).isNullish := rfl
    unfold looseEquals
    dsimp only
    simp only [hbit, Primitive.looseEq_bit]

/-! ### The recursion -/

variable (host)

/-- One pass over two operands: an answer, or the operands to go on with. -/
def equalityPass (x y : Value) : Action (Bool ⊕ Value × Value) := do
  if x.type = y.type then return .inl (← host.strictEquals x y)
  if x.isNullish && y.isNullish then return .inl true
  -- the number of a value that is not an object takes no conversion
  match x.type, y.type with
  | .number, .string | .string, .number =>
    return .inl ((← host.toFloat x) == (← host.toFloat y))
  | .boolean, _ => return .inr (Primitive.ofFloat (← host.toFloat x), y)
  | _, .boolean => return .inr (x, Primitive.ofFloat (← host.toFloat y))
  | .number, .object | .string, .object => return .inr (x, ← host.toPrimitive .default y)
  | .object, .number | .object, .string => return .inr (← host.toPrimitive .default x, y)
  | _, _ => return .inl false

/-- The operands that one pass converts to primitives. -/
def passConverts (x y : Value) : List Value :=
  match x.type, y.type with
  | .number, .object | .string, .object => [y]
  | .object, .number | .object, .string => [x]
  | _, _ => []

/-- A run of passes over two operands in a world converts operands and ends in an outcome. -/
inductive EqualityRun :
    Value → Value → World → List Value → EStateM.Result Error World Bool → Prop where
  | answered {x y : Value} {w w' : World} {b : Bool} :
    host.equalityPass x y w = .ok (.inl b) w' → EqualityRun x y w (passConverts x y) (.ok b w')
  | failed {x y : Value} {w w' : World} {e : Error} :
    host.equalityPass x y w = .error e w' → EqualityRun x y w (passConverts x y) (.error e w')
  | continued {x y x' y' : Value} {w w' : World} {vs : List Value}
    {out : EStateM.Result Error World Bool} :
    host.equalityPass x y w = .ok (.inr (x', y')) w' → EqualityRun x' y' w' vs out →
      EqualityRun x y w (passConverts x y ++ vs) out

namespace EqualityRun

variable {host}

/-- There is at most one run. -/
theorem unique {x y : Value} {w : World} {vs vs' : List Value}
    {out out' : EStateM.Result Error World Bool} (h : host.EqualityRun x y w vs out)
    (h' : host.EqualityRun x y w vs' out') : vs = vs' ∧ out = out' := by
  induction h generalizing vs' out' with
  | answered hpass =>
    cases h' with
    | answered hpass' => cases hpass.symm.trans hpass'; exact ⟨rfl, rfl⟩
    | failed hpass' => cases hpass.symm.trans hpass'
    | continued hpass' _ => cases hpass.symm.trans hpass'
  | failed hpass =>
    cases h' with
    | answered hpass' => cases hpass.symm.trans hpass'
    | failed hpass' => cases hpass.symm.trans hpass'; exact ⟨rfl, rfl⟩
    | continued hpass' _ => cases hpass.symm.trans hpass'
  | continued hpass _ ih =>
    cases h' with
    | answered hpass' => cases hpass.symm.trans hpass'
    | failed hpass' => cases hpass.symm.trans hpass'
    | continued hpass' hrest' =>
      cases hpass.symm.trans hpass'
      obtain ⟨rfl, rfl⟩ := ih hrest'
      exact ⟨rfl, rfl⟩

variable (host)

/-- Without booleans, two primitives are answered in one pass. -/
theorem of_ne_boolean {p q : Primitive} (hp : p.type ≠ .boolean) (hq : q.type ≠ .boolean)
    (w : World) : host.EqualityRun p q w [] (.ok (p.looseEq q) w) := by
  cases p <;> cases q <;>
    first | exact .answered rfl | exact absurd rfl hp | exact absurd rfl hq

/-- A boolean on the left goes on as its number. -/
theorem bool_left {b : Bool} {y : Value} (hy : y.type ≠ .boolean) {w : World} {vs : List Value}
    {out : EStateM.Result Error World Bool}
    (h : host.EqualityRun (Primitive.bit b) y w vs out) :
    host.EqualityRun (Primitive.bool b) y w vs out := by
  have hpass : host.equalityPass (Primitive.bool b) y w =
      .ok (.inr (Primitive.bit b, y)) w := by
    rw [← Primitive.ofFloat_bool]
    rcases y with (_ | _ | _ | _ | _ | _) | _ <;> first | rfl | exact absurd rfl hy
  exact .continued hpass h

/-- A boolean on the right goes on as its number. -/
theorem bool_right {b : Bool} {x : Value} (hx : x.type ≠ .boolean) {w : World} {vs : List Value}
    {out : EStateM.Result Error World Bool}
    (h : host.EqualityRun x (Primitive.bit b) w vs out) :
    host.EqualityRun x (Primitive.bool b) w vs out := by
  have hpass : host.equalityPass x (Primitive.bool b) w =
      .ok (.inr (x, Primitive.bit b)) w := by
    rw [← Primitive.ofFloat_bool]
    rcases x with (_ | _ | _ | _ | _ | _) | _ <;> first | rfl | exact absurd rfl hx
  have hconverts : passConverts x (Primitive.bool b) = [] := by
    rcases x with (_ | _ | _ | _ | _ | _) | _ <;> rfl
  rw [← List.nil_append vs, ← hconverts]
  exact .continued hpass h

/-- Two primitives are answered without a conversion. -/
theorem primitives (p q : Primitive) (w : World) :
    host.EqualityRun p q w [] (.ok (p.looseEq q) w) := by
  obtain hp | ⟨a, rfl⟩ := p.ne_boolean_or
  · obtain hq | ⟨b, rfl⟩ := q.ne_boolean_or
    · exact of_ne_boolean host hp hq w
    · rw [p.looseEq_comm, ← Primitive.looseEq_bit, Primitive.looseEq_comm]
      exact bool_right host (x := p) hp (of_ne_boolean host hp (Primitive.type_bit b) w)
  · obtain hq | ⟨b, rfl⟩ := q.ne_boolean_or
    · rw [← Primitive.looseEq_bit]
      exact bool_left host (y := q) hq (of_ne_boolean host (Primitive.type_bit a) hq w)
    · exact .answered rfl

/-- After a pass that converts an operand, the next ones meet two primitives. -/
theorem of_conversion {x y v : Value} {f : Primitive → Primitive × Primitive}
    (hpass : host.equalityPass x y = (do
      let p ← host.toPrimitive .default v
      return .inr (.primitive (f p).1, .primitive (f p).2)))
    (hconverts : passConverts x y = [v]) (w : World) :
    host.EqualityRun x y w [v] ((do
      let p ← host.toPrimitive .default v
      return (f p).1.looseEq (f p).2) w) := by
  rw [← hconverts]
  cases hrun : host.toPrimitive .default v w with
  | error e w' =>
    rw [bind_of_error hrun]
    exact .failed (by rw [hpass, bind_of_error hrun])
  | ok p w' =>
    have hnext : host.equalityPass x y w =
        .ok (.inr (.primitive (f p).1, .primitive (f p).2)) w' := by
      rw [hpass, bind_of_ok hrun]
      rfl
    rw [bind_of_ok hrun, ← List.append_nil (passConverts x y)]
    exact .continued hnext (primitives host (f p).1 (f p).2 w')

/-- An object on the right of another primitive is converted once. -/
theorem object_right {p : Primitive} (hp : p.type ≠ .boolean) (id : ObjectId) (w : World) :
    host.EqualityRun p (.object id) w (BinaryOp.looseEq.converted p (.object id))
      (host.looseEquals p (.object id) w) := by
  cases p with
  | undefined | null => exact .answered rfl
  | bool b => exact absurd rfl hp
  | int i => exact of_conversion host (f := fun q => (.int i, q)) rfl rfl w
  | number x => exact of_conversion host (f := fun q => (.number x, q)) rfl rfl w
  | str s => exact of_conversion host (f := fun q => (.str s, q)) rfl rfl w

/-- An object on the left is converted once as well. -/
theorem object_left {q : Primitive} (hq : q.type ≠ .boolean) (id : ObjectId) (w : World) :
    host.EqualityRun (.object id) q w (BinaryOp.looseEq.converted (.object id) q)
      (host.looseEquals (.object id) q w) := by
  cases q with
  | undefined | null => exact .answered rfl
  | bool b => exact absurd rfl hq
  | int i => exact of_conversion host (f := fun p => (p, .int i)) rfl rfl w
  | number x => exact of_conversion host (f := fun p => (p, .number x)) rfl rfl w
  | str s => exact of_conversion host (f := fun p => (p, .str s)) rfl rfl w

/-- Two objects are compared strictly. -/
theorem objects (a b : ObjectId) (w : World) :
    host.EqualityRun (.object a) (.object b) w []
      (host.strictEquals (.object a) (.object b) w) := by
  obtain ⟨w', hrun, -⟩ := host.strictEquals_run (.object a) (.object b) w
  have hpass : host.equalityPass (.object a) (.object b) = (do
      return Sum.inl (← host.strictEquals (.object a) (.object b))) := rfl
  rw [hrun]
  refine .answered ?_
  rw [hpass, bind_of_ok hrun]
  rfl

/-- The run on any two operands. A boolean that meets an object is replaced before the object is
converted, and what the object becomes may be replaced after that. -/
theorem looseEquals (x y : Value) (w : World) :
    host.EqualityRun x y w (BinaryOp.looseEq.converted x y) (host.looseEquals x y w) := by
  cases x with
  | primitive p =>
    cases y with
    | primitive q => exact primitives host p q w
    | object id =>
      obtain hp | ⟨b, rfl⟩ := p.ne_boolean_or
      · exact object_right host hp id w
      · rw [← looseEquals_bit]
        exact bool_left host (y := .object id) nofun (object_right host (Primitive.type_bit b) id w)
  | object id =>
    cases y with
    | primitive q =>
      obtain hq | ⟨b, rfl⟩ := q.ne_boolean_or
      · exact object_left host hq id w
      · rw [← looseEquals_comm_of_primitive, ← looseEquals_bit, looseEquals_comm_of_primitive]
        exact bool_right host (x := .object id) nofun (object_left host (Primitive.type_bit b) id w)
    | object id' => exact objects host id id' w

end EqualityRun

end Host

/-- Loose equality is symmetric, if the host finds its objects equal both ways around: swapping the
operands gives the same answer or the same error, asks for the same callbacks in the same order and
leaves the same heap. What is strictly equal is loosely equal, and nothing is converted for that.
Null and undefined are equal to each other, and to nothing else. The recursion has exactly one run,
which converts at most one operand, once. -/
theorem loose_equality_symmetric (host : Host)
    (hsymm : ∀ a b, host.equates a b = host.equates b a) (x y : Value) (w : World) :
    (Host.SameOutcome (host.looseEquals x y w) (host.looseEquals y x w) ∧
      (host.looseEquals x y).callbacks w = (host.looseEquals y x).callbacks w) ∧
    (∀ w', host.strictEquals x y w = .ok true w' →
      host.looseEquals x y w = .ok true w' ∧ host.EqualityRun x y w [] (.ok true w') ∧
      (host.looseEquals x y).callbacks w = [] ∧ w'.heap = w.heap) ∧
    (x.isNullish → host.looseEquals x y w = .ok y.isNullish w ∧
      host.looseEquals y x w = .ok y.isNullish w) ∧
    ∃ vs, host.EqualityRun x y w vs (host.looseEquals x y w) ∧ vs.length ≤ 1 ∧
      (∀ vs' out, host.EqualityRun x y w vs' out → vs' = vs ∧ out = host.looseEquals x y w) ∧
      ∃ error? w', host.Converts .default vs w ((host.looseEquals x y).callbacks w) error? w' := by
  have hrun := Host.EqualityRun.looseEquals host x y w
  obtain ⟨error?, w₁, hconverts, -⟩ := (Action.Completes.looseEquals host x y).converts w
  refine ⟨Host.looseEquals_comm hsymm x y w, fun w' hstrict => ?_, fun hx => ?_,
    _, hrun, BinaryOp.length_converted_looseEq x y, fun vs' out hrun' => hrun'.unique hrun,
    error?, w₁, hconverts⟩
  · obtain ⟨hloose, hnone⟩ := Host.looseEquals_of_strictEquals hstrict
    obtain ⟨w₂, hstrict', hheap⟩ := host.strictEquals_run x y w
    injection hstrict.symm.trans hstrict' with _ hw
    subst hw
    rw [hnone, hloose] at hrun
    rw [hnone] at hconverts
    exact ⟨hloose, hrun, hconverts.callbacks_eq_nil, hheap⟩
  · cases x with
    | object id => cases hx
    | primitive p =>
      have hloose : host.looseEquals p y w = .ok y.isNullish w :=
        Host.looseEquals_of_isNullish hx y w
      refine ⟨hloose, ?_⟩
      rw [← Host.looseEquals_comm_of_primitive, hloose]

/-- An object with a method `valueOf` of the host that answers with true, and the boolean: the
boolean becomes a number, then the object a boolean, and then that a number. -/
theorem loose_equality_symmetric_boolean :
    let method : Object := .ofKind (.function ⟨"valueOf", .function, some ⟨0⟩⟩)
    let object := (Object.ofKind .ordinary).define "valueOf" ⟨.object ⟨0⟩, true⟩
    let heap : Heap := ⟨#[method, object]⟩
    let left : Value := .object ⟨1⟩
    let right : Value := Primitive.bool true
    let w : World := ⟨heap, []⟩
    let w' : World := ⟨heap, [.invoked (.native ⟨0⟩ left [])]⟩
    let host : Host := ⟨fun _ _ => .answer (.bool true), fun _ => false, fun _ => none, 1⟩
    (∀ a b, host.equates a b = host.equates b a) ∧ host.looseEquals right left w = .ok true w' ∧
      Host.SameOutcome (host.looseEquals left right w) (.ok true w') ∧
      (host.looseEquals left right).callbacks w = [.native ⟨0⟩ left []] := by
  intro method object heap left right w w' host
  have hsymm (a b : HostObject) : host.equates a b = host.equates b a := rfl
  have hright : host.looseEquals right left w = .ok true w' := rfl
  have hcallbacks : (host.looseEquals right left).callbacks w = [.native ⟨0⟩ left []] := rfl
  obtain ⟨⟨hsame, hsame'⟩, -⟩ := loose_equality_symmetric host hsymm left right w
  rw [hright] at hsame
  exact ⟨hsymm, hright, hsame, hsame'.trans hcallbacks⟩

end ScriptOps
