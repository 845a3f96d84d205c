import ScriptOps.Proofs.ConversionCallbacks

/-!
# The order of conversions

An operator converts its operands in the order in which they stand in the source, each at most once,
and stops at the first conversion that fails. `BinaryOp.converted` tells which operands it converts,
and `Host.Converts` what happens to the world while it does. Every operator is such a conversion,
followed by a computation that asks for no callback (`Action.Completes.evaluate`).

The operator `in` looks at its right operand first. It converts nothing unless that is an object.
-/

namespace ScriptOps

/-! ### What is converted -/

namespace BinaryOp

/-- What an operator asks for when it converts an operand. -/
def operandHint : BinaryOp → Hint
  | add | looseEq | looseNotEq => .default
  | membership => .string
  | _ => .number

/-- The operands that an operator converts, in order. -/
def converted (op : BinaryOp) (l r : Value) : List Value :=
  match op with
  | strictEq | strictNotEq | instanceOf => []
  | looseEq | looseNotEq =>
    match l, r with
    | .object _, .primitive q => if q.isNullish then [] else [l]
    | .primitive p, .object _ => if p.isNullish then [] else [r]
    | _, _ => []
  | membership =>
    match r with
    | .object _ => [l]
    | .primitive _ => []
  | _ => if op.isAbsorbed l r then [] else [l, r]

/-- Whether an operator computes on the primitives of both operands. -/
def convertsBoth : BinaryOp → Bool
  | strictEq | strictNotEq | looseEq | looseNotEq | instanceOf | membership => false
  | _ => true

variable {op : BinaryOp} {l r : Value}

/-- Multiplication and remainder absorb an undefined operand, and nothing else is absorbed. -/
theorem isAbsorbed_iff :
    op.isAbsorbed l r ↔ (op = mul ∨ op = rem) ∧ (l = .undefined ∨ r = .undefined) := by
  cases op
  case mul | rem =>
    rcases l with (_ | _ | _ | _ | _ | _) | _ <;> rcases r with (_ | _ | _ | _ | _ | _) | _ <;>
      simp [isAbsorbed]
  all_goals simp [isAbsorbed]

/-- An operator on both primitives converts both operands, unless it absorbs one. -/
theorem converted_of_convertsBoth (hop : op.convertsBoth) :
    op.converted l r = if op.isAbsorbed l r then [] else [l, r] := by
  cases op <;> first | rfl | cases hop

/-- The left operand comes first, and no operand is converted twice. -/
theorem converted_sublist : (op.converted l r).Sublist [l, r] := by
  by_cases hop : op.convertsBoth
  · rw [converted_of_convertsBoth hop]
    split
    · exact List.nil_sublist _
    · exact .refl _
  · cases op
    case strictEq | strictNotEq | instanceOf => exact List.nil_sublist _
    case looseEq | looseNotEq =>
      unfold converted
      dsimp only
      split
      · split <;> simp
      · split <;> simp
      · exact List.nil_sublist _
    case membership => cases r <;> simp [converted]
    all_goals exact absurd rfl hop

/-- Loose equality converts an object that meets a primitive other than undefined and null. -/
theorem converted_looseEq (hop : op = looseEq ∨ op = looseNotEq) :
    op.converted l r =
      if l.type = .object ∧ r.type ≠ .object ∧ r.isNullish = false then [l]
      else if r.type = .object ∧ l.type ≠ .object ∧ l.isNullish = false then [r] else [] := by
  have hprimitive (p : Primitive) : p.type ≠ .object := by cases p <;> nofun
  obtain rfl | rfl := hop
  all_goals
    rcases l with p | id <;> rcases r with q | id' <;>
      simp only [converted, Value.type, Value.isNullish]
    · simp [hprimitive]
    · cases p.isNullish <;> simp [hprimitive]
    · cases q.isNullish <;> simp [hprimitive]
    · simp

/-- Loose equality converts at most one operand. -/
theorem length_converted_looseEq (l r : Value) : (looseEq.converted l r).length ≤ 1 := by
  rw [converted_looseEq (.inl rfl)]
  split
  · exact Nat.le_refl 1
  · split
    · exact Nat.le_refl 1
    · exact Nat.zero_le 1

end BinaryOp

/-! ### Conversions in order -/

namespace Host

/-- Converting operands in a world asks for these callbacks and ends in a world, with an error
perhaps: the callbacks of each conversion follow those of the one before it, and a conversion that
fails is the last. -/
inductive Converts (host : Host) (hint : Hint) :
    List Value → World → List Callback → Option Error → World → Prop where
  | done (w : World) : Converts host hint [] w [] none w
  | failed {v : Value} {w w' : World} {e : Error} (rest : List Value) :
    host.toPrimitive hint v w = .error e w' →
      Converts host hint (v :: rest) w ((host.toPrimitive hint v).callbacks w) (some e) w'
  | next {v : Value} {rest : List Value} {w w' w'' : World} {p : Primitive} {cs : List Callback}
    {error? : Option Error} :
    host.toPrimitive hint v w = .ok p w' → Converts host hint rest w' cs error? w'' →
      Converts host hint (v :: rest) w ((host.toPrimitive hint v).callbacks w ++ cs) error? w''

/-- Nothing is asked for where nothing is converted. -/
theorem Converts.callbacks_eq_nil {host : Host} {hint : Hint} {w w' : World} {cs : List Callback}
    {error? : Option Error} (h : host.Converts hint [] w cs error? w') : cs = [] := by
  cases h
  rfl

/-- Converts operands one after the other. -/
def convertAll (host : Host) (hint : Hint) : List Value → Action (List Primitive)
  | [] => return []
  | v :: rest => do
    let p ← host.toPrimitive hint v
    let ps ← host.convertAll hint rest
    return p :: ps

variable (host : Host) (hint : Hint)

/-- The first operand is converted before the rest. -/
theorem convertAll_cons (v : Value) (rest : List Value) :
    host.convertAll hint (v :: rest) = (do
      let p ← host.toPrimitive hint v
      let ps ← host.convertAll hint rest
      return p :: ps) := rfl

/-- Converting operands one after the other delegates. -/
theorem delegates_convertAll (vs : List Value) : Action.Delegates (host.convertAll hint vs) := by
  have hbasis := Action.Delegates.basis host
  induction vs with
  | nil => exact hbasis.pure _
  | cons v rest ih =>
    exact hbasis.bind (.toPrimitive host hint v) fun p => hbasis.bind ih fun ps => hbasis.pure _

/-- The rest asks for callbacks only where the first operand was converted. -/
theorem callbacks_convertAll_cons (v : Value) (rest : List Value) (w : World) :
    (host.convertAll hint (v :: rest)).callbacks w = (host.toPrimitive hint v).callbacks w ++
      match host.toPrimitive hint v w with
      | .ok _ w' => (host.convertAll hint rest).callbacks w'
      | .error _ _ => [] := by
  have hrest := delegates_convertAll host hint rest
  have hpure (p : Primitive) (ps : List Primitive) := Action.IsSilent.pure (p :: ps)
  rw [convertAll_cons, (Action.Delegates.toPrimitive host hint v).callbacks_bind
    fun p => hrest.bind fun ps => (hpure p ps).delegates]
  simp only [Action.IsSilent.callbacks_bind hrest (hpure _)]
  cases host.toPrimitive hint v w <;> rfl

/-- Converting operands one after the other keeps to the order. -/
theorem converts_convertAll (vs : List Value) (w : World) :
    match host.convertAll hint vs w with
    | .ok _ w' => host.Converts hint vs w ((host.convertAll hint vs).callbacks w) none w'
    | .error e w' =>
      host.Converts hint vs w ((host.convertAll hint vs).callbacks w) (some e) w' := by
  induction vs generalizing w with
  | nil =>
    have hcallbacks : (host.convertAll hint []).callbacks w = [] :=
      (Action.IsSilent.pure _).callbacks_eq w
    rw [hcallbacks]
    exact .done w
  | cons v rest ih =>
    rw [callbacks_convertAll_cons, convertAll_cons]
    cases hrun : host.toPrimitive hint v w with
    | error e w' =>
      rw [bind_of_error hrun, List.append_nil]
      exact .failed rest hrun
    | ok p w' =>
      have hlater := ih w'
      rw [bind_of_ok hrun]
      cases hrun' : host.convertAll hint rest w' with
      | ok ps w'' =>
        rw [hrun'] at hlater
        rw [bind_of_ok hrun']
        exact .next hrun hlater
      | error e w'' =>
        rw [hrun'] at hlater
        rw [bind_of_error hrun']
        exact .next hrun hlater

end Host

/-! ### Operators -/

/-- The effect is the conversion of operands, followed by a computation that asks for no
callback. -/
def Action.Completes (host : Host) (hint : Hint) (vs : List Value) {α : Type} (x : Action α) :
    Prop :=
  ∃ complete : List Primitive → Action α, (∀ ps, (complete ps).IsSilent) ∧
    x = host.convertAll hint vs >>= complete

namespace Action.Completes

variable {α β : Type} {host : Host} {hint : Hint}

/-- A silent effect converts nothing. -/
theorem of_isSilent {x : Action α} (hx : x.IsSilent) : Completes host hint [] x :=
  ⟨fun _ => x, fun _ => hx, rfl⟩

/-- A conversion followed by silence converts one operand. -/
theorem one (v : Value) {f : Primitive → Action α} (hf : ∀ p, (f p).IsSilent) :
    Completes host hint [v] (host.toPrimitive hint v >>= f) := by
  refine ⟨fun ps => f (ps.headD .undefined), fun ps => hf _, ?_⟩
  simp only [Host.convertAll, bind_assoc, pure_bind, List.headD_cons]

/-- Two conversions followed by silence convert both operands. -/
theorem both (l r : Value) {f : Primitive × Primitive → Action α} (hf : ∀ pq, (f pq).IsSilent) :
    Completes host hint [l, r] (host.toPrimitives hint l r >>= f) := by
  refine ⟨fun ps => f (ps.headD .undefined, ps.getD 1 .undefined), fun ps => hf _, ?_⟩
  simp only [Host.convertAll, Host.toPrimitives, bind_assoc, pure_bind, List.headD_cons]
  rfl

/-- A silent effect may follow. -/
theorem bind {vs : List Value} {x : Action α} {f : α → Action β} (hx : Completes host hint vs x)
    (hf : ∀ a, (f a).IsSilent) : Completes host hint vs (x >>= f) := by
  obtain ⟨complete, hsilent, rfl⟩ := hx
  exact ⟨fun ps => complete ps >>= f, fun ps => (hsilent ps).bind hf, bind_assoc _ _ _⟩

/-- The callbacks are those of the conversions, and a computation that asks for none cannot change
the heap. -/
theorem converts {vs : List Value} {x : Action α} (hx : Completes host hint vs x) (w : World) :
    ∃ error? w', host.Converts hint vs w (x.callbacks w) error? w' ∧
      (leaves x w).heap = w'.heap ∧ ∀ e, error? = some e → x w = .error e w' := by
  obtain ⟨complete, hsilent, rfl⟩ := hx
  have hconverts := host.converts_convertAll hint vs w
  rw [IsSilent.callbacks_bind (host.delegates_convertAll hint vs) hsilent, leaves_bind]
  cases hrun : host.convertAll hint vs w with
  | ok ps w' =>
    rw [hrun] at hconverts
    exact ⟨none, w', hconverts, (hsilent ps).heap_eq w', nofun⟩
  | error e w' =>
    rw [hrun] at hconverts
    refine ⟨some e, w', hconverts, rfl, fun e' he => ?_⟩
    rw [bind_of_error hrun, Option.some.inj he]

/-- Loose equality converts an object that meets a primitive. -/
theorem looseEquals (host : Host) (l r : Value) :
    Completes host .default (BinaryOp.looseEq.converted l r) (host.looseEquals l r) := by
  cases l with
  | primitive p =>
    cases r with
    | primitive q => exact of_isSilent (.pure _)
    | object id =>
      unfold Host.looseEquals BinaryOp.converted
      dsimp only
      split
      · exact of_isSilent (.pure _)
      · exact one _ fun _ => .pure _
  | object id =>
    cases r with
    | primitive q =>
      unfold Host.looseEquals BinaryOp.converted
      dsimp only
      split
      · exact of_isSilent (.pure _)
      · exact one _ fun _ => .pure _
    | object id' => exact of_isSilent (.strictEquals host _ _)

/-- Membership converts the key, where there is an object to look in. -/
theorem isMember (host : Host) (l r : Value) :
    Completes host .string (BinaryOp.membership.converted l r) (isMember host l r) := by
  cases r with
  | primitive p => exact of_isSilent (.bind (.of_leaves_eq fun _ => rfl) fun _ => .fail _)
  | object id =>
    have hkey : Completes host .string [l] (host.toPropertyKey l) := one l fun _ => .pure _
    exact hkey.bind fun _ => .of_leaves_eq fun _ => rfl

/-- An operator on both primitives converts both operands in order. -/
theorem convertAndCompute (op : BinaryOp) (host : Host) (l r : Value) :
    Completes host op.hint (if op.isAbsorbed l r then [] else [l, r])
      (op.convertAndCompute host l r) := by
  unfold BinaryOp.convertAndCompute
  split
  · exact of_isSilent (.pure _)
  · exact both l r fun _ => .pure _

/-- Every operator converts operands and computes in silence. -/
theorem evaluate (op : BinaryOp) (host : Host) (l r : Value) :
    Completes host op.operandHint (op.converted l r) (op.evaluate host l r) := by
  cases op
  case strictEq | strictNotEq =>
    exact (of_isSilent (.strictEquals host l r)).bind fun _ => .pure _
  case looseEq | looseNotEq => exact (looseEquals host l r).bind fun _ => .pure _
  case instanceOf => exact (of_isSilent (.isInstanceOf l r)).bind fun _ => .pure _
  case membership => exact (isMember host l r).bind fun _ => .pure _
  all_goals exact convertAndCompute _ host l r

end Action.Completes

/-- The operator `in` fails at once with an error of category type, in the world as it is, unless
its right operand is an object. -/
theorem BinaryOp.evaluate_membership_of_type_ne_object (host : Host) (l : Value) {r : Value}
    (hr : r.type ≠ .object) (w : World) :
    ∃ e, membership.evaluate host l r w = .error e w ∧ e.cause.category? = some .type := by
  cases r with
  | primitive p => exact ⟨_, rfl, rfl⟩
  | object id => exact absurd rfl hr

/-- Operands convert from left to right, each at most once. What an operator asks of the host are
the conversions of the operands that it converts, with its hint and in order, up to the first that
fails, whose error it gives. Most operators convert both, whatever the order in which they compare
them. Strict equality, `instanceof`, loose equality of two objects, and `*` and `%` with an
undefined operand convert none; `in` converts the left operand alone, and only for an object on the
right, and for anything else it fails with an error of category type before it converts; loose
equality converts at most one. Without a callback the heap stays as it is. -/
theorem operands_converted_in_order (op : BinaryOp) (host : Host) (l r : Value) (w : World) :
    (∃ error? w', host.Converts op.operandHint (op.converted l r) w
        ((op.evaluate host l r).callbacks w) error? w' ∧
      (leaves (op.evaluate host l r) w).heap = w'.heap ∧
        ∀ e, error? = some e → op.evaluate host l r w = .error e w') ∧
    (op.converted l r).Sublist [l, r] ∧
    (op.convertsBoth → ¬((op = .mul ∨ op = .rem) ∧ (l = .undefined ∨ r = .undefined)) →
      op.converted l r = [l, r]) ∧
    (op = .strictEq ∨ op = .strictNotEq ∨ op = .instanceOf ∨
      (op = .looseEq ∨ op = .looseNotEq) ∧ l.type = .object ∧ r.type = .object ∨
      (op = .mul ∨ op = .rem) ∧ (l = .undefined ∨ r = .undefined) → op.converted l r = []) ∧
    (op = .membership → op.converted l r = if r.type = .object then [l] else []) ∧
    (op = .membership → r.type ≠ .object →
      ∃ e, op.evaluate host l r w = .error e w ∧ e.cause.category? = some .type) ∧
    (op = .looseEq ∨ op = .looseNotEq → (op.converted l r).length ≤ 1) ∧
    ((op.evaluate host l r).callbacks w = [] →
      (leaves (op.evaluate host l r) w).heap = w.heap) := by
  refine ⟨(Action.Completes.evaluate op host l r).converts w, BinaryOp.converted_sublist, ?_, ?_,
    ?_, ?_, ?_, (Action.Delegates.evaluate host op l r).heap_eq⟩
  · intro hop habsorbed
    rw [BinaryOp.converted_of_convertsBoth hop,
      if_neg fun h => habsorbed (BinaryOp.isAbsorbed_iff.1 h)]
  · rintro (rfl | rfl | rfl | ⟨hop, hl, hr⟩ | habsorbed)
    · rfl
    · rfl
    · rfl
    · rw [BinaryOp.converted_looseEq hop, if_neg fun h => h.2.1 hr, if_neg fun h => h.2.1 hl]
    · have hop : op.convertsBoth := by obtain rfl | rfl := habsorbed.1 <;> rfl
      rw [BinaryOp.converted_of_convertsBoth hop, if_pos (BinaryOp.isAbsorbed_iff.2 habsorbed)]
  · rintro rfl
    cases r with
    | primitive p =>
      rw [if_neg (by cases p <;> nofun)]
      rfl
    | object id => rfl
  · rintro rfl hr
    exact BinaryOp.evaluate_membership_of_type_ne_object host l hr w
  · rintro (rfl | rfl) <;> exact BinaryOp.length_converted_looseEq l r

/-- An object with a method `toString` of the host, looked for in a number: the conversion to a key
would call the method, and the operator does not. It fails with an error of category type. -/
theorem operands_converted_in_order_fails_membership :
    let method : Object := .ofKind (.function ⟨"toString", .function, some ⟨0⟩⟩)
    let object := (Object.ofKind .ordinary).define "toString" ⟨.object ⟨0⟩, true⟩
    let w : World := ⟨⟨#[method, object]⟩, []⟩
    let host : Host := ⟨fun _ _ => .answer (.str "k"), fun _ => false, fun _ => none, 1⟩
    let left : Value := .object ⟨1⟩
    let run := BinaryOp.membership.evaluate host left (Primitive.int 5)
    (host.toPrimitive .string left).callbacks w = [.native ⟨0⟩ left []] ∧ run.callbacks w = [] ∧
      (¬∃ error? w', host.Converts .string [left] w (run.callbacks w) error? w') ∧
        ∃ e, run w = .error e w ∧ e.cause.category? = some .type := by
  intro method object w host left run
  have hconversion : (host.toPrimitive .string left).callbacks w = [.native ⟨0⟩ left []] := rfl
  have hrun : run.callbacks w = [] := rfl
  refine ⟨hconversion, hrun, ?_, ⟨_, rfl, rfl⟩⟩
  rintro ⟨error?, w', hconverts⟩
  rw [hrun] at hconverts
  generalize hcallbacks : ([] : List Callback) = cs at hconverts
  cases hconverts with
  | failed rest _ => rw [hconversion] at hcallbacks; nomatch hcallbacks
  | next _ _ => rw [hconversion] at hcallbacks; nomatch hcallbacks

end ScriptOps
