import ScriptOps.Proofs.ConversionCallbacks

/-!
# The choice of an operator method

Of the methods that the types of two operands declare for an operator, the search takes the first of
the cheapest that accept both operands. It keeps the best method so far and gives way only to a
cheaper one, so a prefix of the search is decided before the next method is seen. A method that was
chosen accepts its operands, and what is accepted is converted without asking anyone: the
conversions run no method of a script or of the host and cannot fail, and the method is called with
arguments of the types that it declares.
-/

namespace ScriptOps

/-! ### Accepted operands -/

/-- Whether a parameter accepts operands of a type: a host object only if it is of the very type, a
boolean also as a number, a number and a boolean also as a string, and any operand as it is. -/
def ParamType.Accepts : ParamType → OperandType → Prop
  | .host p, .host a => p = a
  | .number, .number | .number, .boolean => True
  | .string, .string | .string, .number | .string, .boolean => True
  | .boolean, .boolean => True
  | .any, _ => True
  | _, _ => False

/-- Whether a method accepts two operands. -/
def OperatorMethod.Accepts (m : OperatorMethod) (left right : OperandType) : Prop :=
  m.left.Accepts left ∧ m.right.Accepts right

/-- What is accepted has a cost, and nothing else. -/
theorem ParamType.cost?_eq_none_iff (p : ParamType) (t : OperandType) :
    p.cost? t = none ↔ ¬p.Accepts t := by
  cases p with
  | host p =>
    cases t with
    | host a => by_cases h : p = a <;> simp [cost?, Accepts, h]
    | number | string | boolean => simp [cost?, Accepts]
  | number | string | boolean | any => cases t <;> simp [cost?, Accepts]

/-- An overload has no cost exactly for the operands it does not accept. -/
theorem OperatorMethod.cost?_eq_none_iff (m : OperatorMethod) (left right : OperandType) :
    m.cost? left right = none ↔ ¬m.Accepts left right := by
  rw [Accepts, not_and_or, ← ParamType.cost?_eq_none_iff, ← ParamType.cost?_eq_none_iff, cost?]
  cases m.left.cost? left <;> cases m.right.cost? right <;> simp

/-! ### The search -/

namespace Catalog

variable {c : Catalog} {op : BinaryOp} {left right : OperandType}

/-- The methods for an operator that the type of the left operand declares, then those that the type
of the right operand declares, each in order of declaration. A type of both operands counts once. -/
def declaredFor (c : Catalog) (op : BinaryOp) (left right : OperandType) : List OperatorMethod :=
  (c.methods.filter fun m => m.operator = op ∧ left.hostType? = some m.declaringType) ++
    c.methods.filter fun m => m.operator = op ∧ right.hostType? = some m.declaringType ∧
      left.hostType? ≠ right.hostType?

/-- The methods declared for an operation are those of its operator on the type of either
operand. -/
theorem mem_declaredFor {m : OperatorMethod} : m ∈ c.declaredFor op left right ↔
    m ∈ c.methods ∧ m.operator = op ∧
      (left.hostType? = some m.declaringType ∨ right.hostType? = some m.declaringType) := by
  simp only [declaredFor, List.mem_append, List.mem_filter, decide_eq_true_eq]
  constructor
  · rintro (⟨hmem, hop, hleft⟩ | ⟨hmem, hop, hright, -⟩)
    · exact ⟨hmem, hop, .inl hleft⟩
    · exact ⟨hmem, hop, .inr hright⟩
  · rintro ⟨hmem, hop, hleft | hright⟩
    · exact .inl ⟨hmem, hop, hleft⟩
    · by_cases hsame : left.hostType? = right.hostType?
      · exact .inl ⟨hmem, hop, hsame.trans hright⟩
      · exact .inr ⟨hmem, hop, hright, hsame⟩

/-- The methods a type declares for an operator, as a filter of the whole catalog. -/
theorem methodsOn_eq (c : Catalog) (t : HostTypeId) (op : BinaryOp) :
    c.methodsOn t op =
      c.methods.filter fun m => m.operator = op ∧ some t = some m.declaringType := by
  unfold methodsOn
  refine List.filter_congr fun m _ => ?_
  simp only [Option.some_inj, eq_comm (a := t), and_comm]

/-- These are the methods that the search goes through. -/
theorem candidates_eq_declaredFor (c : Catalog) (op : BinaryOp) (left right : OperandType) :
    c.candidates op left right = c.declaredFor op left right := by
  unfold candidates declaredFor
  rw [List.flatMap_append]
  congr 1
  · cases left.hostType? with
    | none => simp
    | some t => simp [methodsOn_eq]
  · cases right.hostType? with
    | none => simp
    | some t =>
      by_cases hsame : left.hostType? = some t
      · simp [hsame]
      · have hkept : Option.filter (fun t => left.hostType? ≠ some t) (some t) = some t := by
          simp [hsame]
        rw [hkept]
        simp [methodsOn_eq, hsame]

/-- What a search has found when it has seen some methods: nothing if none of them accepts the
operands, else the first of the cheapest that do. -/
def Finds (left right : OperandType) (seen : List OperatorMethod) :
    Option (Nat × OperatorMethod) → Prop
  | none => ∀ m ∈ seen, m.cost? left right = none
  | some (cost, m) => ∃ before after, seen = before ++ m :: after ∧
      m.cost? left right = some cost ∧
      (∀ m' ∈ before, ∀ n, m'.cost? left right = some n → cost < n) ∧
      ∀ m' ∈ after, ∀ n, m'.cost? left right = some n → cost ≤ n

/-- A further method that does not win is seen after the best one. -/
theorem Finds.keep {seen : List OperatorMethod} {least : Nat} {best m : OperatorMethod}
    (h : Finds left right seen (some (least, best)))
    (hm : ∀ n, m.cost? left right = some n → least ≤ n) :
    Finds left right (seen ++ [m]) (some (least, best)) := by
  obtain ⟨before, after, rfl, hcost, hbefore, hafter⟩ := h
  refine ⟨before, after ++ [m], by simp, hcost, hbefore, fun m' hm' => ?_⟩
  rcases List.mem_append.1 hm' with hmem | hmem
  · exact hafter m' hmem
  · obtain rfl := List.mem_singleton.1 hmem
    exact hm

/-- One step of the search: a further method. -/
theorem Finds.better {seen : List OperatorMethod} {best? : Option (Nat × OperatorMethod)}
    (h : Finds left right seen best?) (m : OperatorMethod) :
    Finds left right (seen ++ [m]) (Catalog.better left right best? m) := by
  unfold Catalog.better
  cases hcost : m.cost? left right with
  | none =>
    cases best? with
    | none =>
      intro m' hm'
      rcases List.mem_append.1 hm' with hmem | hmem
      · exact h m' hmem
      · rwa [List.mem_singleton.1 hmem]
    | some best => exact h.keep fun n hn => nomatch hcost.symm.trans hn
  | some cost =>
    cases best? with
    | none =>
      refine ⟨seen, [], rfl, hcost, fun m' hm' n hn => ?_, nofun⟩
      nomatch (h m' hm').symm.trans hn
    | some best =>
      obtain ⟨least, best⟩ := best
      dsimp only
      split
      · next hlt =>
        -- the best so far and all that it beat cost more than the new one
        obtain ⟨before, after, rfl, hbest, hbefore, hafter⟩ := h
        refine ⟨before ++ best :: after, [], rfl, hcost, fun m' hm' n hn => ?_, nofun⟩
        rcases List.mem_append.1 hm' with hmem | hmem
        · exact Nat.lt_trans hlt (hbefore m' hmem n hn)
        · rcases List.mem_cons.1 hmem with rfl | hmem
          · obtain rfl := Option.some.inj (hbest.symm.trans hn)
            exact hlt
          · exact Nat.lt_of_lt_of_le hlt (hafter m' hmem n hn)
      · next hge =>
        refine h.keep fun n hn => ?_
        obtain rfl := Option.some.inj (hcost.symm.trans hn)
        exact Nat.not_lt.1 hge

/-- A run of the search. -/
theorem Finds.foldl_better {seen : List OperatorMethod} {best? : Option (Nat × OperatorMethod)}
    (h : Finds left right seen best?) (rest : List OperatorMethod) :
    Finds left right (seen ++ rest) (rest.foldl (Catalog.better left right) best?) := by
  induction rest generalizing seen best? with
  | nil => rwa [List.append_nil]
  | cons m rest ih =>
    have hstep := ih (h.better m)
    rwa [List.append_assoc] at hstep

/-- The whole search. -/
theorem finds_candidates (c : Catalog) (op : BinaryOp) (left right : OperandType) :
    Finds left right (c.declaredFor op left right)
      ((c.candidates op left right).foldl (Catalog.better left right) none) := by
  have hempty : Finds left right [] none := nofun
  rw [candidates_eq_declaredFor]
  exact hempty.foldl_better _

/-- The search finds nothing exactly if no declared method accepts the operands. -/
theorem bestMatch?_eq_none_iff : c.bestMatch? op left right = none ↔
    ∀ m ∈ c.declaredFor op left right, ¬m.Accepts left right := by
  have hfinds := finds_candidates c op left right
  unfold bestMatch?
  generalize (c.candidates op left right).foldl (Catalog.better left right) none = best? at hfinds ⊢
  cases best? with
  | none =>
    refine iff_of_true rfl fun m hm => ?_
    exact (m.cost?_eq_none_iff left right).1 (hfinds m hm)
  | some best =>
    obtain ⟨cost, m⟩ := best
    obtain ⟨before, after, hseen, hcost, -⟩ := hfinds
    refine iff_of_false nofun fun hnone => ?_
    have hmem : m ∈ c.declaredFor op left right := by simp [hseen]
    nomatch ((m.cost?_eq_none_iff left right).2 (hnone m hmem)).symm.trans hcost

/-- What the search finds is the first of the cheapest. -/
theorem exists_finds_of_bestMatch? {m : OperatorMethod} (h : c.bestMatch? op left right = some m) :
    ∃ cost, Finds left right (c.declaredFor op left right) (some (cost, m)) := by
  obtain ⟨⟨cost, m'⟩, hbest, rfl⟩ := Option.map_eq_some_iff.1 h
  exact ⟨cost, hbest ▸ finds_candidates c op left right⟩

end Catalog

/-! ### Accepted operands are converted in silence -/

/-- Whether `given` is what a parameter is given for the operand `v`: a number, a string, a boolean,
the same host object, or the operand unchanged. -/
def ParamType.Conforms (h : Heap) (v given : Value) : ParamType → Prop
  | .number => given.type = .number ∧
      ∃ p, v = .primitive p ∧ given = .primitive (.ofFloat p.toFloat)
  | .string => ∃ p, v = .primitive p ∧ given = .str p.toText
  | .boolean => given = v ∧ ∃ b, v = .bool b
  | .host t => given = v ∧ ∃ o, h.hostObject? v = some o ∧ o.type.id = t
  | .any => given = v

/-- A number made from a double has the number type, whichever subtype holds it. -/
theorem Primitive.type_ofFloat (x : Float) : (Primitive.ofFloat x).type = .number := by
  unfold ofFloat
  split <;> rfl

/-- Only primitives have the type of a number, a string or a boolean. -/
theorem OperandType.eq_primitive {h : Heap} {v : Value} {t : OperandType}
    (hv : OperandType.of? h v = some t) (ht : t.hostType? = none) : ∃ p, v = .primitive p := by
  cases v with
  | primitive p => exact ⟨p, rfl⟩
  | object id =>
    obtain ⟨o, -, rfl⟩ := Option.map_eq_some_iff.1 hv
    nomatch ht

/-- The operands of type boolean are the booleans. -/
theorem OperandType.eq_bool {h : Heap} {v : Value} (hv : OperandType.of? h v = some .boolean) :
    ∃ b, v = .bool b := by
  obtain ⟨p, rfl⟩ := eq_primitive hv rfl
  cases p with
  | bool b => exact ⟨b, rfl⟩
  | undefined | null | int | number | str => nomatch hv

/-- An operand of a host type is an object of that type. -/
theorem OperandType.eq_hostObject {h : Heap} {v : Value} {t : HostTypeId}
    (hv : OperandType.of? h v = some (.host t)) :
    ∃ o, h.hostObject? v = some o ∧ o.type.id = t := by
  cases v with
  | primitive p => cases p <;> nomatch hv
  | object id =>
    obtain ⟨o, ho, htype⟩ := Option.map_eq_some_iff.1 hv
    exact ⟨o, ho, OperandType.host.inj htype⟩

/-- A host object is not taken for a number or a string. -/
theorem ParamType.hostType?_eq_none {p : ParamType} {t : OperandType} (hp : p.Accepts t)
    (htext : p = .number ∨ p = .string) : t.hostType? = none := by
  cases t with
  | host a => rcases htext with rfl | rfl <;> exact hp.elim
  | number | string | boolean => rfl

/-- An accepted operand is converted without an effect and without an error. -/
theorem ParamType.convert_of_accepts {p : ParamType} {t : OperandType} (hp : p.Accepts t)
    (host : Host) {w : World} {v : Value} (hv : OperandType.of? w.heap v = some t) :
    ∃ given, p.Conforms w.heap v given ∧ p.convert host v w = .ok given w := by
  cases p with
  | host p =>
    cases t with
    | host a =>
      obtain rfl : p = a := hp
      exact ⟨v, ⟨rfl, OperandType.eq_hostObject hv⟩, rfl⟩
    | number | string | boolean => exact hp.elim
  | number =>
    obtain ⟨q, rfl⟩ := OperandType.eq_primitive hv (hostType?_eq_none hp (.inl rfl))
    exact ⟨.primitive (.ofFloat q.toFloat), ⟨Primitive.type_ofFloat _, q, rfl, rfl⟩, rfl⟩
  | string =>
    obtain ⟨q, rfl⟩ := OperandType.eq_primitive hv (hostType?_eq_none hp (.inr rfl))
    exact ⟨_, ⟨q, rfl, rfl⟩, rfl⟩
  | boolean =>
    cases t with
    | boolean =>
      obtain ⟨b, rfl⟩ := OperandType.eq_bool hv
      exact ⟨_, ⟨rfl, b, rfl⟩, rfl⟩
    | host | number | string => exact hp.elim
  | any => exact ⟨v, rfl, rfl⟩

/-- A request is one callback, and the steps of the host are none. -/
theorem Action.callbacks_ask (host : Host) (c : Callback) (w : World) :
    (host.ask c).callbacks w = [c] := by
  obtain ⟨own, htrace, hwrites⟩ := OnlyWrites.ask host c w
  have hown : Trace.callbacks own = [] := by
    refine List.filterMap_eq_nil_iff.2 fun event hevent => ?_
    obtain ⟨accepted, rfl⟩ := hwrites event (List.mem_reverse.1 hevent)
    rfl
  have hsplit : (leaves (host.ask c) w).trace = (own ++ [.invoked c]) ++ w.trace := by
    rw [htrace, List.append_assoc]
    rfl
  rw [callbacks_eq hsplit, Trace.callbacks_append, hown, List.append_nil]
  rfl

/-- A method that accepts its operands is called once, with arguments of its parameter types, and
that is all that happens. -/
theorem OperatorMethod.invoke_of_accepts {m : OperatorMethod} {left right : OperandType}
    (hm : m.Accepts left right) (host : Host) {w : World} {l r : Value}
    (hl : OperandType.of? w.heap l = some left) (hr : OperandType.of? w.heap r = some right) :
    ∃ l' r', m.left.Conforms w.heap l l' ∧ m.right.Conforms w.heap r r' ∧
      m.invoke host l r w = host.ask (.operator m.number l' r') w ∧
      (m.invoke host l r).callbacks w = [.operator m.number l' r'] := by
  obtain ⟨l', hl', hleft⟩ := ParamType.convert_of_accepts hm.1 host hl
  obtain ⟨r', hr', hright⟩ := ParamType.convert_of_accepts hm.2 host hr
  have hinvoke : m.invoke host l r w = host.ask (.operator m.number l' r') w :=
    (bind_of_ok hleft).trans (bind_of_ok hright)
  refine ⟨l', r', hl', hr', hinvoke, ?_⟩
  rw [← Action.callbacks_ask host (.operator m.number l' r') w]
  unfold Action.callbacks leaves
  rw [hinvoke]

/-- The best operator method is the best one, and it is called without a hitch. The search gives no
method exactly if none that is declared for the operator, by the type of one of the operands,
accepts both operands. Otherwise it gives, of those that do, the first of the cheapest, in the order
in which the types of the left and the right operand declare them. Whatever operands of those types
it is called with, it is called once, with arguments that conform to its parameters; no other
callback runs and no conversion fails, and the outcome is that of the callback. -/
theorem overload_choice_optimal (c : Catalog) (op : BinaryOp) (left right : OperandType) :
    (c.bestMatch? op left right = none ↔
      ∀ m ∈ c.methods, m.operator = op →
        left.hostType? = some m.declaringType ∨ right.hostType? = some m.declaringType →
          ¬m.Accepts left right) ∧
    ∀ m, c.bestMatch? op left right = some m →
      (m.Accepts left right ∧ ∃ before after cost,
        c.declaredFor op left right = before ++ m :: after ∧
        m.cost? left right = some cost ∧
        (∀ m' ∈ before, ∀ n, m'.cost? left right = some n → cost < n) ∧
        ∀ m' ∈ after, ∀ n, m'.cost? left right = some n → cost ≤ n) ∧
      ∀ (host : Host) (w : World) (l r : Value),
        OperandType.of? w.heap l = some left → OperandType.of? w.heap r = some right →
          ∃ l' r', m.left.Conforms w.heap l l' ∧ m.right.Conforms w.heap r r' ∧
            m.invoke host l r w = host.ask (.operator m.number l' r') w ∧
            (m.invoke host l r).callbacks w = [.operator m.number l' r'] := by
  refine ⟨?_, fun m hm => ?_⟩
  · rw [Catalog.bestMatch?_eq_none_iff]
    constructor
    · intro h m hmem hop htype
      exact h m (Catalog.mem_declaredFor.2 ⟨hmem, hop, htype⟩)
    · intro h m hm
      obtain ⟨hmem, hop, htype⟩ := Catalog.mem_declaredFor.1 hm
      exact h m hmem hop htype
  · obtain ⟨cost, before, after, hdeclared, hcost, hbefore, hafter⟩ :=
      Catalog.exists_finds_of_bestMatch? hm
    have haccepts : m.Accepts left right := by
      by_contra hnot
      nomatch ((m.cost?_eq_none_iff left right).2 hnot).symm.trans hcost
    refine ⟨⟨haccepts, before, after, cost, hdeclared, hcost, hbefore, hafter⟩, ?_⟩
    intro host w l r hl hr
    exact OperatorMethod.invoke_of_accepts haccepts host hl hr

/-- A method that takes anything gives way to one that is declared later and costs less, although
its second operand has to be made a string. -/
theorem overload_choice_optimal_converted :
    let money : HostTypeId := ⟨0⟩
    let general : OperatorMethod := ⟨.add, money, .any, .any, 0⟩
    let written : OperatorMethod := ⟨.add, money, .host money, .string, 1⟩
    let host : Host := ⟨fun _ _ => .answer .undefined, fun _ => false, fun _ => none, 0⟩
    let w : World := ⟨⟨#[.ofKind (.host ⟨⟨money, "Money"⟩, none, fun _ => none, 0⟩)]⟩, []⟩
    Catalog.bestMatch? ⟨[general, written]⟩ .add (.host money) .number = some written ∧
      OperandType.of? w.heap (.object ⟨0⟩) = some (.host money) ∧
      OperandType.of? w.heap (.primitive (.int 5)) = some .number ∧
      (written.invoke host (.object ⟨0⟩) (.primitive (.int 5))).callbacks w =
        [.operator 1 (.object ⟨0⟩) (.str "5")] := by
  intro money general written host w
  have hbest : Catalog.bestMatch? ⟨[general, written]⟩ .add (.host money) .number = some written :=
    by decide
  refine ⟨hbest, rfl, rfl, ?_⟩
  obtain ⟨-, hcall⟩ := (overload_choice_optimal ⟨[general, written]⟩ .add (.host money) .number).2
    written hbest
  obtain ⟨l, r, ⟨rfl, -⟩, ⟨p, hp, rfl⟩, -, hcallbacks⟩ :=
    hcall host w (.object ⟨0⟩) (.primitive (.int 5)) rfl rfl
  cases hp
  exact hcallbacks

end ScriptOps
