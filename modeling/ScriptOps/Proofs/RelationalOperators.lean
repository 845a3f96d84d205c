import ScriptOps.Proofs.Agreement
import ScriptOps.Proofs.FastPaths

/-!
# The relational operators

The four relational operators ask one question, `Host.less?`, with the operands as they stand or
swapped, and take its answer as it is or negated. `Primitive.isLess` and `Primitive.isLessEq` say
what comes out: two strings compare by their code units, all else by value, with no case of their
own for integers and no order in which to ask. Unless a NaN takes part, each of the two relations is
the negation of the other with the operands swapped; with a NaN both fail.
-/

namespace ScriptOps

/-! ### The order of doubles -/

namespace Rounding

open Float.Model Float.Model.UnpackedFloat

/-- Swapping two signs swaps their order. -/
theorem compare_sign_swap (s t : Sign) : compare t s = (compare s t).swap := by
  cases s <;> cases t <;> rfl

/-- Swapping the numbers swaps the answer. -/
theorem compare_swap (x y : UnpackedFloat) :
    UnpackedFloat.compare y x = (UnpackedFloat.compare x y).map Ordering.swap := by
  have hmagnitude (m n : Nat) (e f : Int) :
      (compare f e).then (compare n m) = ((compare e f).then (compare m n)).swap := by
    rw [Ordering.swap_then, Int.compare_swap, Nat.compare_swap]
  fun_cases UnpackedFloat.compare x y
  case case1 => cases y <;> rfl
  case case3 s t => exact congrArg some (compare_sign_swap s t)
  case case13 m e _ n f _ => exact congrArg (some ·.swap) (hmagnitude m n e f)
  case case16 m e _ n f _ => exact congrArg some (hmagnitude m n e f)
  all_goals simp [UnpackedFloat.compare]

/-- Only a NaN does not compare. -/
theorem compare_eq_none (x y : UnpackedFloat) :
    UnpackedFloat.compare x y = none ↔ x.isNaN || y.isNaN := by
  rw [Bool.or_eq_true, UnpackedFloat.isNaN_iff, UnpackedFloat.isNaN_iff]
  fun_cases UnpackedFloat.compare x y <;> simp_all

/-- The order of doubles is the comparison of what they unpack to. -/
theorem lt_iff (x y : Float) :
    x < y ↔ UnpackedFloat.compare x.toModel.unpack y.toModel.unpack = some .lt := by
  change decide ((_ == _) = true) = true ↔ _
  rw [decide_eq_true_iff, beq_iff_eq]

/-- So is the order that admits equality. -/
theorem le_iff (x y : Float) :
    x ≤ y ↔ (UnpackedFloat.compare x.toModel.unpack y.toModel.unpack).any (·.isLE) := by
  change decide (_ = true) = true ↔ _
  rw [decide_eq_true_iff]
  rfl

variable {x y : Float}

/-- Doubles have no order exactly if one of them is not a number. -/
theorem isNaN_or_iff : x.isNaN || y.isNaN ↔
    UnpackedFloat.compare x.toModel.unpack y.toModel.unpack = none :=
  (compare_eq_none _ _).symm

/-- A NaN compares with nothing. -/
theorem not_lt_of_isNaN (h : x.isNaN || y.isNaN) : ¬x < y ∧ ¬x ≤ y := by
  rw [lt_iff, le_iff, isNaN_or_iff.1 h]
  exact ⟨nofun, nofun⟩

/-- The order of doubles is asymmetric. -/
theorem lt_asymm (h : x < y) : ¬y < x := by
  rw [lt_iff] at h
  rw [lt_iff, compare_swap x.toModel.unpack, h]
  nofun

/-- Where neither is a NaN, the order of doubles is total. -/
theorem le_iff_not_lt (h : (x.isNaN || y.isNaN) = false) : x ≤ y ↔ ¬y < x := by
  rw [← Bool.not_eq_true, isNaN_or_iff] at h
  rw [le_iff, lt_iff, compare_swap x.toModel.unpack]
  cases hcompare : UnpackedFloat.compare x.toModel.unpack y.toModel.unpack with
  | none => exact absurd hcompare h
  | some o => cases o <;> simp

end Rounding

/-! ### The order of texts -/

namespace Utf16

/-- Strings are ordered by their code units. -/
theorem compare_eq_lt (a b : String) : Utf16.compare a b = .lt ↔ encode a < encode b := by
  unfold Utf16.compare
  generalize encode a = units
  generalize encode b = units'
  induction units generalizing units' with
  | nil => cases units' <;> simp
  | cons unit units ih =>
    cases units' with
    | nil => simp
    | cons unit' units' =>
      rw [List.compare_cons_cons, Ordering.then_eq_lt, Nat.compare_eq_lt, Nat.compare_eq_eq, ih,
        List.cons_lt_cons_iff]

end Utf16

/-! ### Primitives -/

namespace Primitive

/-- A comparison of two primitives: of the code units of two strings, else of the values. -/
def compareBy (units : List Nat → List Nat → Bool) (values : Float → Float → Bool)
    (p q : Primitive) : Bool :=
  match p.text?, q.text? with
  | some a, some b => units (Utf16.encode a) (Utf16.encode b)
  | _, _ => values p.toFloat q.toFloat

/-- Whether a primitive is less than another. -/
def isLess : Primitive → Primitive → Bool :=
  compareBy (fun a b => a < b) (fun x y => x < y)

/-- Whether a primitive is at most another. -/
def isLessEq : Primitive → Primitive → Bool :=
  compareBy (fun a b => a ≤ b) (fun x y => x ≤ y)

/-- Whether two primitives compare by value and a NaN takes part. -/
def isUnordered : Primitive → Primitive → Bool :=
  compareBy (fun _ _ => false) (fun x y => x.isNaN || y.isNaN)

/-- Swapped primitives compare by the same, code units or values. -/
theorem compareBy_cases (p q : Primitive) :
    (∃ a b, ∀ units values, compareBy units values p q = units a b ∧
      compareBy units values q p = units b a) ∨
    ∀ units values, compareBy units values p q = values p.toFloat q.toFloat ∧
      compareBy units values q p = values q.toFloat p.toFloat := by
  cases p <;> cases q
  case str.str a b => exact .inl ⟨Utf16.encode a, Utf16.encode b, fun _ _ => ⟨rfl, rfl⟩⟩
  all_goals exact .inr fun _ _ => ⟨rfl, rfl⟩

variable {p q : Primitive}

/-- Whether two primitives have no order does not depend on which comes first. -/
theorem isUnordered_swap : q.isUnordered p = p.isUnordered q := by
  obtain ⟨a, b, h⟩ | h := compareBy_cases p q
  · simp only [isUnordered, h]
  · simp only [isUnordered, h, Bool.or_comm]

/-- Unordered primitives are in neither relation. -/
theorem isLess_of_isUnordered (hnan : p.isUnordered q) :
    p.isLess q = false ∧ p.isLessEq q = false := by
  obtain ⟨a, b, h⟩ | h := compareBy_cases p q
  · simp only [isUnordered, h, Bool.false_eq_true] at hnan
  · simp only [isUnordered, h] at hnan
    simp only [isLess, isLessEq, h, decide_eq_false_iff_not]
    exact Rounding.not_lt_of_isNaN hnan

/-- The order of primitives is asymmetric. -/
theorem isLess_asymm (hless : p.isLess q) : q.isLess p = false := by
  obtain ⟨a, b, h⟩ | h := compareBy_cases p q
  · simp only [isLess, h, decide_eq_true_eq, decide_eq_false_iff_not] at hless ⊢
    exact lt_asymm hless
  · simp only [isLess, h, decide_eq_true_eq, decide_eq_false_iff_not] at hless ⊢
    exact Rounding.lt_asymm hless

/-- Unless a NaN takes part, at most is not greater than. -/
theorem isLessEq_eq_not_isLess (hnan : p.isUnordered q = false) :
    p.isLessEq q = !q.isLess p := by
  obtain ⟨a, b, h⟩ | h := compareBy_cases p q
  · simp only [isLessEq, isLess, h, ← not_lt, decide_not]
  · simp only [isUnordered, h] at hnan
    simp only [isLessEq, isLess, h, Rounding.le_iff_not_lt hnan, decide_not]

/-- The answer to the question that the operators ask. -/
theorem less?_eq_isLess (p q : Primitive) :
    p.less? q = if p.isUnordered q then none else some (p.isLess q) := by
  rw [less?_eq]
  cases p <;> cases q
  case str.str a b =>
    change some (Utf16.compare a b == .lt) = some (decide (Utf16.encode a < Utf16.encode b))
    simp only [← Utf16.compare_eq_lt, beq_eq_decide]
  all_goals rfl

end Primitive

/-! ### Operators -/

namespace BinaryOp

/-- What an operator takes for less than, of an answer. -/
theorem holds_true_less? (p q : Primitive) : holds (p.less? q) true = .bool (p.isLess q) := by
  rw [Primitive.less?_eq_isLess, holds]
  cases hnan : p.isUnordered q with
  | false => simp
  | true => simp [Primitive.isLess_of_isUnordered hnan]

/-- What an operator takes for at most, of an answer on the swapped operands. -/
theorem holds_false_less? (p q : Primitive) : holds (q.less? p) false = .bool (p.isLessEq q) := by
  rw [Primitive.less?_eq_isLess, holds, Primitive.isUnordered_swap]
  cases hnan : p.isUnordered q with
  | false => simp [Primitive.isLessEq_eq_not_isLess hnan]
  | true => simp [Primitive.isLess_of_isUnordered hnan]

variable (host : Host) (l r : Value)

/-- The operators ask whether one operand is less than the other. Two of them ask it of the swapped
operands, and still convert the left one first. -/
theorem evaluate_eq_less? :
    less.evaluate host l r = (do return holds (← host.less? l r true) true) ∧
    greater.evaluate host l r = (do return holds (← host.less? r l false) true) ∧
    lessEq.evaluate host l r = (do return holds (← host.less? r l false) false) ∧
    greaterEq.evaluate host l r = (do return holds (← host.less? l r true) false) := by
  refine ⟨?_, ?_, ?_, ?_⟩ <;>
    simp [evaluate, convertAndCompute, isAbsorbed, compute?, Host.less?, BinaryOp.hint]

variable {host l r}

/-- A comparison converts the left operand first in either order, and compares the primitives. -/
theorem less?_of_toPrimitive {w w₁ w₂ : World} {p q : Primitive}
    (hl : host.toPrimitive .number l w = .ok p w₁) (hr : host.toPrimitive .number r w₁ = .ok q w₂) :
    host.less? l r true w = .ok (p.less? q) w₂ ∧ host.less? r l false w = .ok (q.less? p) w₂ := by
  have hboth : host.toPrimitives .number l r w = .ok (p, q) w₂ := by
    rw [Host.toPrimitives, bind_of_ok hl, bind_of_ok hr]
    rfl
  simp only [Host.less?, if_true, Bool.false_eq_true, if_false]
  exact ⟨bind_of_ok hboth, bind_of_ok hboth⟩

/-- The four operators on two values that convert to primitives. -/
theorem evaluate_of_toPrimitive {w w₁ w₂ : World} {p q : Primitive}
    (hl : host.toPrimitive .number l w = .ok p w₁) (hr : host.toPrimitive .number r w₁ = .ok q w₂) :
    less.evaluate host l r w = .ok (Primitive.bool (p.isLess q)) w₂ ∧
    greater.evaluate host l r w = .ok (Primitive.bool (q.isLess p)) w₂ ∧
    lessEq.evaluate host l r w = .ok (Primitive.bool (p.isLessEq q)) w₂ ∧
    greaterEq.evaluate host l r w = .ok (Primitive.bool (q.isLessEq p)) w₂ := by
  obtain ⟨hless, hgreater, hlessEq, hgreaterEq⟩ := evaluate_eq_less? host l r
  obtain ⟨hasked, hswapped⟩ := less?_of_toPrimitive hl hr
  rw [hless, hgreater, hlessEq, hgreaterEq, bind_of_ok hasked, bind_of_ok hasked,
    bind_of_ok hswapped, bind_of_ok hswapped, holds_true_less?, holds_true_less?,
    holds_false_less?, holds_false_less?]
  exact ⟨rfl, rfl, rfl, rfl⟩

/-- On primitives, swapping the operands swaps the operators. -/
theorem evaluate_swap (host : Host) (p q : Primitive) :
    greater.evaluate host p q = less.evaluate host q p ∧
    greaterEq.evaluate host p q = lessEq.evaluate host q p := by
  constructor <;> funext w
  · rw [(evaluate_of_toPrimitive (l := p) (r := q) rfl rfl).2.1,
      (evaluate_of_toPrimitive (l := q) (r := p) rfl rfl).1]
  · rw [(evaluate_of_toPrimitive (l := p) (r := q) rfl rfl).2.2.2,
      (evaluate_of_toPrimitive (l := q) (r := p) rfl rfl).2.2.1]

end BinaryOp

/-- The relational operators are one comparison of the primitives that the operands convert to, the
left one first: by code units if both are strings, else by value. If a NaN takes part in the latter,
all four give false. Otherwise exactly one holds of less, greater, and both at most and at least,
and each of the last two is the negation of one of the first two. On primitives, two of the
operators are the other two on the swapped operands. -/
theorem relational_operators_consistent (host : Host) {l r : Value} {w w₁ w₂ : World}
    {p q : Primitive} (hl : host.toPrimitive .number l w = .ok p w₁)
    (hr : host.toPrimitive .number r w₁ = .ok q w₂) :
    (BinaryOp.less.evaluate host l r w = .ok (Primitive.bool (p.isLess q)) w₂ ∧
      BinaryOp.greater.evaluate host l r w = .ok (Primitive.bool (q.isLess p)) w₂ ∧
      BinaryOp.lessEq.evaluate host l r w = .ok (Primitive.bool (p.isLessEq q)) w₂ ∧
      BinaryOp.greaterEq.evaluate host l r w = .ok (Primitive.bool (q.isLessEq p)) w₂) ∧
    (p.isUnordered q → p.isLess q = false ∧ q.isLess p = false ∧ p.isLessEq q = false ∧
      q.isLessEq p = false) ∧
    (p.isUnordered q = false →
      [p.isLess q, q.isLess p, p.isLessEq q && q.isLessEq p].count true = 1 ∧
      p.isLessEq q = !q.isLess p ∧ q.isLessEq p = !p.isLess q) ∧
    ∀ a b : Primitive, BinaryOp.greater.evaluate host a b = BinaryOp.less.evaluate host b a ∧
      BinaryOp.greaterEq.evaluate host a b = BinaryOp.lessEq.evaluate host b a := by
  refine ⟨BinaryOp.evaluate_of_toPrimitive hl hr, fun hnan => ?_, fun hnan => ?_,
    BinaryOp.evaluate_swap host⟩
  · obtain ⟨hless, hlessEq⟩ := Primitive.isLess_of_isUnordered hnan
    obtain ⟨hless', hlessEq'⟩ :=
      Primitive.isLess_of_isUnordered (Primitive.isUnordered_swap.trans hnan)
    exact ⟨hless, hless', hlessEq, hlessEq'⟩
  · have hlessEq := Primitive.isLessEq_eq_not_isLess hnan
    have hgreaterEq := Primitive.isLessEq_eq_not_isLess (Primitive.isUnordered_swap.trans hnan)
    refine ⟨?_, hlessEq, hgreaterEq⟩
    rw [hlessEq, hgreaterEq]
    cases hless : p.isLess q with
    | false => cases q.isLess p <;> rfl
    | true =>
      rw [Primitive.isLess_asymm hless]
      rfl

/-- An object with a method `valueOf` of the host that answers with the string "10", on the left of
the string "9": they compare by their first code units, and not as 10 and 9. -/
theorem relational_operators_consistent_texts :
    let method : Object := .ofKind (.function ⟨"valueOf", .function, some ⟨0⟩⟩)
    let object := (Object.ofKind .ordinary).define "valueOf" ⟨.object ⟨0⟩, true⟩
    let heap : Heap := ⟨#[method, object]⟩
    let left : Value := .object ⟨1⟩
    let w : World := ⟨heap, []⟩
    let w' : World := ⟨heap, [.invoked (.native ⟨0⟩ left [])]⟩
    let host : Host := ⟨fun _ _ => .answer (.str "10"), fun _ => false, fun _ => none, 1⟩
    BinaryOp.less.evaluate host left (Primitive.str "9") w = .ok (Primitive.bool true) w' ∧
      BinaryOp.greaterEq.evaluate host left (Primitive.str "9") w =
        .ok (Primitive.bool false) w' := by
  intro method object heap left w w' host
  have hl : host.toPrimitive .number left w = .ok (.str "10") w' := rfl
  have hr : host.toPrimitive .number (Primitive.str "9") w' = .ok (.str "9") w' := rfl
  obtain ⟨⟨hless, -, -, hgreaterEq⟩, -⟩ := relational_operators_consistent host hl hr
  exact ⟨hless, hgreaterEq⟩

end ScriptOps
