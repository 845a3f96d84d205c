import Mathlib
import ScriptOps.Proofs.LooseEquality

/-!
# The equality relations

Values are compared for sameness in three ways. `Value.same` is what the host sees: numbers by
value, with NaN the same as NaN, and objects by identity. `Host.sameValueZero` also asks the host
for the objects behind two distinct wrappers. `Host.strictEquals` does so too, but lets NaN equal
nothing. On primitives the first two are one relation and the third is that relation without NaN; on
objects the last two are one relation, `Host.Identifies`. So what is said of the three comes down to
doubles, where all zeros are one and all NaNs are one, and to the equality that the host brings.
-/

namespace ScriptOps

/-! ### Doubles -/

/-- Whether two doubles are the same by value, and NaN the same as NaN. -/
def sameDouble (x y : Float) : Bool :=
  x == y || (x.isNaN && y.isNaN)

/-- A NaN equals nothing. -/
theorem beq_eq_false_of_isNaN {x y : Float} (h : x.isNaN ∨ y.isNaN) : (x == y) = false := by
  simp only [Float.isNaN_eq_decide_eq_nan, decide_eq_true_eq] at h
  rcases h with rfl | rfl
  · exact Float.nan_beq_eq_false y
  · exact Float.beq_nan_eq_false x

/-- Being the same double is an equivalence. -/
theorem equivalence_sameDouble : Equivalence fun x y => sameDouble x y = true where
  refl x := by
    by_cases hx : x = Float.nan
    · simp [sameDouble, hx]
    · simp [sameDouble, Float.beq_self_iff.2 hx]
  symm {x y} h := by rwa [sameDouble, BEq.comm, Bool.and_comm] at h
  trans {x y z} hxy hyz := by
    simp only [sameDouble, Bool.or_eq_true, Bool.and_eq_true] at hxy hyz ⊢
    rcases hxy with hxy | ⟨hx, hy⟩
    · rcases hyz with hyz | ⟨hy, hz⟩
      · exact .inl (BEq.trans hxy hyz)
      · rw [beq_eq_false_of_isNaN (.inr hy)] at hxy
        nomatch hxy
    · rcases hyz with hyz | ⟨-, hz⟩
      · rw [beq_eq_false_of_isNaN (.inl hy)] at hyz
        nomatch hyz
      · exact .inr ⟨hx, hz⟩

/-! ### Primitives -/

namespace Primitive

/-- Numbers are compared by their doubles, whatever represents them, and all else as it is. -/
theorem same_iff (p q : Primitive) : p.same q ↔
    (∃ x y, p.float? = some x ∧ q.float? = some y ∧ sameDouble x y) ∨
      p.float? = none ∧ p = q := by
  cases p <;> cases q <;> simp [same, float?, sameDouble]

/-- Being the same primitive is an equivalence. -/
theorem equivalence_same : Equivalence fun p q : Primitive => p.same q = true where
  refl p := by
    rw [same_iff]
    cases hp : p.float? with
    | some x => exact .inl ⟨x, x, rfl, rfl, equivalence_sameDouble.refl x⟩
    | none => exact .inr ⟨rfl, rfl⟩
  symm {p q} h := by
    rw [same_iff] at h ⊢
    rcases h with ⟨x, y, hp, hq, hxy⟩ | ⟨hp, rfl⟩
    · exact .inl ⟨y, x, hq, hp, equivalence_sameDouble.symm hxy⟩
    · exact .inr ⟨hp, rfl⟩
  trans {p q r} hpq hqr := by
    rw [same_iff] at hpq hqr ⊢
    rcases hpq with ⟨x, y, hp, hq, hxy⟩ | ⟨hp, rfl⟩
    · rcases hqr with ⟨y', z, hq', hr, hyz⟩ | ⟨hq', rfl⟩
      · obtain rfl := Option.some.inj (hq.symm.trans hq')
        exact .inl ⟨x, z, hp, hr, equivalence_sameDouble.trans hxy hyz⟩
      · nomatch hq.symm.trans hq'
    · exact hqr

/-- Strict equality is sameness, but for NaN. -/
theorem same_eq (p q : Primitive) : p.same q = (p.bothNaN q || p.strictEq q) := by
  by_cases hnumbers : p.float?.isSome ∧ q.float?.isSome
  · obtain ⟨x, hp⟩ := Option.isSome_iff_exists.1 hnumbers.1
    obtain ⟨y, hq⟩ := Option.isSome_iff_exists.1 hnumbers.2
    have hsame : p.same q = sameDouble x y := by
      cases p <;> cases q <;> cases hp <;> cases hq <;> rfl
    rw [hsame, strictEq_of_float? hp hq, bothNaN, hp, hq, sameDouble, Bool.or_comm]
  · cases p <;> cases q <;> first | rfl | exact absurd ⟨rfl, rfl⟩ hnumbers

/-- Strictly equal primitives are those that are the same and not both NaN. -/
theorem strictEq_iff_same (p q : Primitive) : p.strictEq q ↔ p.same q ∧ ¬p.bothNaN q := by
  rw [same_eq]
  cases hnan : p.bothNaN q with
  | false => simp
  | true =>
    have hstrict : p.strictEq q = false := by
      unfold bothNaN at hnan
      split at hnan
      · next x y hp hq =>
        rw [strictEq_of_float? hp hq]
        exact beq_eq_false_of_isNaN (.inl (Bool.and_elim_left hnan))
      · nomatch hnan
    simp [hstrict]

end Primitive

/-! ### Values -/

/-- Two primitives are in one relation, or two objects in another. -/
def Value.Related (P : Primitive → Primitive → Prop) (O : ObjectId → ObjectId → Prop) :
    Value → Value → Prop
  | .primitive p, .primitive q => P p q
  | .object a, .object b => O a b
  | _, _ => False

/-- Relations of primitives and of identities that are equivalences make one of values. -/
theorem Value.equivalence_related {P : Primitive → Primitive → Prop}
    {O : ObjectId → ObjectId → Prop} (hP : Equivalence P) (hO : Equivalence O) :
    Equivalence (Related P O) where
  refl
    | .primitive p => hP.refl p
    | .object a => hO.refl a
  symm {x y} h :=
    match x, y, h with
    | .primitive _, .primitive _, h => hP.symm h
    | .object _, .object _, h => hO.symm h
  trans {x y z} h h' :=
    match x, y, z, h, h' with
    | .primitive _, .primitive _, .primitive _, h, h' => hP.trans h h'
    | .object _, .object _, .object _, h, h' => hO.trans h h'

/-- Values stay related when more identities are related. -/
theorem Value.Related.mono {P : Primitive → Primitive → Prop} {O O' : ObjectId → ObjectId → Prop}
    (hO : ∀ {a b}, O a b → O' a b) {x y : Value} (h : Related P O x y) : Related P O' x y :=
  match x, y, h with
  | .primitive _, .primitive _, h => h
  | .object _, .object _, h => hO h

/-- What the host sees. -/
theorem Value.same_iff_related (x y : Value) :
    x.same y ↔ Related (fun p q => p.same q) Eq x y := by
  cases x with
  | primitive p =>
    cases y with
    | primitive q => exact Iff.rfl
    | object b => exact iff_of_false nofun id
  | object a =>
    cases y with
    | primitive q => exact iff_of_false nofun id
    | object b => exact beq_iff_eq

/-- Whether a value is NaN. -/
def Value.isNaN (v : Value) : Bool :=
  v.float?.any Float.isNaN

/-- A primitive is NaN exactly if its number is. -/
theorem Value.isNaN_primitive (p : Primitive) :
    (p : Value).isNaN ↔ ∃ x, p.float? = some x ∧ x.isNaN := by
  have hnan : (p : Value).isNaN = p.float?.any Float.isNaN := rfl
  rw [hnan, Option.any_eq_true]

/-- Two primitives are both NaN exactly if each of them is. -/
theorem Primitive.bothNaN_iff (p q : Primitive) :
    p.bothNaN q ↔ (p : Value).isNaN ∧ (q : Value).isNaN := by
  rw [Value.isNaN_primitive, Value.isNaN_primitive, bothNaN]
  cases p.float? <;> cases q.float? <;> simp

/-- What is the same as NaN is NaN. -/
theorem Value.isNaN_of_related {O : ObjectId → ObjectId → Prop} {x y : Value}
    (h : Related (fun p q => p.same q) O x y) (hx : x.isNaN) : y.isNaN := by
  cases x with
  | object a => nomatch hx
  | primitive p =>
    cases y with
    | object b => nomatch h
    | primitive q =>
      rw [isNaN_primitive] at hx ⊢
      obtain ⟨d, hp, hnan⟩ := hx
      rcases (p.same_iff q).1 h with ⟨d', e, hp', hq, hsame⟩ | ⟨hnone, -⟩
      · obtain rfl := Option.some.inj (hp.symm.trans hp')
        rw [sameDouble, beq_eq_false_of_isNaN (.inl hnan), Bool.false_or] at hsame
        exact ⟨e, hq, Bool.and_elim_right hsame⟩
      · nomatch hp.symm.trans hnone

/-- Without NaN, sameness is strict equality. -/
theorem Value.related_strictEq_iff {O : ObjectId → ObjectId → Prop} (x y : Value) :
    Related (fun p q => p.strictEq q) O x y ↔
      Related (fun p q => p.same q) O x y ∧ ¬(x.isNaN ∧ y.isNaN) := by
  cases x with
  | primitive p =>
    cases y with
    | primitive q =>
      rw [← Primitive.bothNaN_iff]
      exact p.strictEq_iff_same q
    | object b => exact ⟨nofun, nofun⟩
  | object a =>
    cases y with
    | primitive q => exact ⟨nofun, nofun⟩
    | object b => exact ⟨fun h => ⟨h, nofun⟩, fun h => h.1⟩

namespace Host

variable {host : Host} {h : Heap}

/-- Two objects are one, or they wrap objects that the host finds equal. -/
def Identifies (host : Host) (h : Heap) (a b : ObjectId) : Prop :=
  a = b ∨ ∃ x y, (h.kind a).host? = some x ∧ (h.kind b).host? = some y ∧ host.equates x y

/-- An object is itself in any case, so the equality of the host need not be reflexive. -/
theorem equivalence_identifies (hsymm : ∀ x y, host.equates x y → host.equates y x)
    (htrans : ∀ x y z, host.equates x y → host.equates y z → host.equates x z) (h : Heap) :
    Equivalence (host.Identifies h) where
  refl a := .inl rfl
  symm {a b} hab := by
    rcases hab with rfl | ⟨x, y, hx, hy, hxy⟩
    · exact .inl rfl
    · exact .inr ⟨y, x, hy, hx, hsymm x y hxy⟩
  trans {a b c} hab hbc := by
    rcases hab with rfl | ⟨x, y, hx, hy, hxy⟩
    · exact hbc
    · rcases hbc with rfl | ⟨y', z, hy', hz, hyz⟩
      · exact .inr ⟨x, y, hx, hy, hxy⟩
      · obtain rfl := Option.some.inj (hy.symm.trans hy')
        exact .inr ⟨x, z, hx, hz, htrans x y z hxy hyz⟩

/-- Only objects behind which the host sees objects of its own are the same to scripts alone. -/
theorem wrappers_of_related {P : Primitive → Primitive → Prop} {x y : Value}
    (hidentified : Value.Related P (host.Identifies h) x y) (hne : ¬Value.Related P Eq x y) :
    ∃ a b, x = .object a ∧ y = .object b ∧ a ≠ b ∧
      (h.kind a).host?.isSome ∧ (h.kind b).host?.isSome := by
  cases x with
  | primitive p =>
    cases y with
    | primitive q => exact absurd hidentified hne
    | object b => nomatch hidentified
  | object a =>
    cases y with
    | primitive q => nomatch hidentified
    | object b =>
      rcases hidentified with hab | ⟨x, y, hx, hy, -⟩
      · exact absurd hab hne
      · exact ⟨a, b, rfl, rfl, hne, by rw [hx]; rfl, by rw [hy]; rfl⟩

/-- Strict equality in a heap. -/
theorem strictEq_iff_related (x y : Value) :
    host.strictEq h x y ↔ Value.Related (fun p q => p.strictEq q) (host.Identifies h) x y := by
  have hobjects (a b : ObjectId) :
      host.strictEq h (.object a) (.object b) ↔ host.Identifies h a b := by
    unfold strictEq Heap.hostPair? Identifies
    dsimp only
    by_cases hab : a = b
    · simp [hab]
    · rw [if_neg hab, beq_false_of_ne hab, Bool.false_or]
      cases (h.kind a).host? <;> cases (h.kind b).host? <;> simp [hab]
  cases x with
  | primitive p =>
    cases y with
    | primitive q => exact Iff.rfl
    | object b => exact iff_of_false nofun id
  | object a =>
    cases y with
    | primitive q => exact iff_of_false nofun id
    | object b => exact hobjects a b

end Host

/-! ### Comparisons as effects -/

/-- A comparison gives an answer in a heap, whatever was observed before, and leaves the heap as it
was. -/
def Action.Answers (x : Action Bool) (h : Heap) (b : Bool) : Prop :=
  ∀ trace, ∃ trace', x ⟨h, trace⟩ = .ok b ⟨h, trace'⟩

/-- There is one answer at most. -/
theorem Action.Answers.true_iff {x : Action Bool} {h : Heap} {b : Bool} (hb : x.Answers h b) :
    x.Answers h true ↔ b := by
  constructor
  · intro htrue
    obtain ⟨trace, hrun⟩ := hb []
    obtain ⟨trace', hrun'⟩ := htrue []
    cases hrun.symm.trans hrun'
    rfl
  · rintro rfl
    exact hb

namespace Host

variable (host : Host) (h : Heap)

/-- Strict equality answers what the relation says, and leaves the heap alone. -/
theorem answers_strictEquals (x y : Value) :
    (host.strictEquals x y).Answers h (host.strictEq h x y) := by
  intro trace
  obtain ⟨⟨h', trace'⟩, hrun, hheap⟩ := host.strictEquals_run x y ⟨h, trace⟩
  obtain rfl : h' = h := hheap
  exact ⟨trace', hrun⟩

/-- On primitives, so does sameness with one zero. -/
theorem answers_sameValueZero (p q : Primitive) :
    (host.sameValueZero p q).Answers h (p.same q) := by
  intro trace
  refine ⟨trace, ?_⟩
  rw [p.same_eq q]
  rfl

/-- Both comparisons come to an answer. -/
theorem exists_answers (x y : Value) :
    (∃ b, (host.strictEquals x y).Answers h b) ∧ ∃ b, (host.sameValueZero x y).Answers h b := by
  have hstrict := host.answers_strictEquals h x y
  refine ⟨⟨_, hstrict⟩, ?_⟩
  cases x with
  | object a => exact ⟨_, hstrict⟩
  | primitive p =>
    cases y with
    | object b => exact ⟨_, hstrict⟩
    | primitive q => exact ⟨_, host.answers_sameValueZero h p q⟩

/-- Strict equality answers true exactly for related values. -/
theorem strictEquals_true_iff (x y : Value) : (host.strictEquals x y).Answers h true ↔
    Value.Related (fun p q => p.strictEq q) (host.Identifies h) x y :=
  (host.answers_strictEquals h x y).true_iff.trans (strictEq_iff_related x y)

/-- NaN matters on two primitives alone. -/
theorem sameValueZero_true_iff (x y : Value) : (host.sameValueZero x y).Answers h true ↔
    Value.Related (fun p q => p.same q) (host.Identifies h) x y := by
  have hstrict := host.strictEquals_true_iff h x y
  cases x with
  | object a =>
    cases y with
    | object b => exact hstrict
    | primitive q => exact hstrict
  | primitive p =>
    cases y with
    | object b => exact hstrict
    | primitive q => exact (host.answers_sameValueZero h p q).true_iff

end Host

/-- The equality relations are consistent, if the equality of the host is symmetric and transitive.
In every heap both comparisons of scripts come to an answer. Sameness is an equivalence relation.
Strict equality is sameness of values that are not both NaN, and it is symmetric and transitive.
What the host sees as the same is an equivalence relation within sameness, and the two differ only
on two distinct objects that wrap host objects. -/
theorem equality_relations_consistent (host : Host)
    (hsymm : ∀ a b, host.equates a b → host.equates b a)
    (htrans : ∀ a b c, host.equates a b → host.equates b c → host.equates a c) (h : Heap) :
    let strict := fun x y => (host.strictEquals x y).Answers h true
    let zero := fun x y => (host.sameValueZero x y).Answers h true
    (∀ x y, (∃ b, (host.strictEquals x y).Answers h b) ∧
      ∃ b, (host.sameValueZero x y).Answers h b) ∧
    Equivalence zero ∧
    (∀ x y, strict x y ↔ zero x y ∧ ¬(x.isNaN ∧ y.isNaN)) ∧
    (∀ x y, strict x y → strict y x) ∧
    (∀ x y z, strict x y → strict y z → strict x z) ∧
    Equivalence (fun x y : Value => x.same y = true) ∧
    ∀ x y, (x.same y → zero x y) ∧
      (zero x y → ¬x.same y → ∃ a b, x = .object a ∧ y = .object b ∧ a ≠ b ∧
        (h.kind a).host?.isSome ∧ (h.kind b).host?.isSome) := by
  intro strict zero
  have hzero_iff (x y : Value) :
      zero x y ↔ Value.Related (fun p q => p.same q) (host.Identifies h) x y :=
    host.sameValueZero_true_iff h x y
  have hzero : Equivalence zero := by
    have hrelated := Value.equivalence_related Primitive.equivalence_same
      (Host.equivalence_identifies hsymm htrans h)
    rwa [← funext fun x => funext fun y => propext (hzero_iff x y)] at hrelated
  have hstrict (x y : Value) : strict x y ↔ zero x y ∧ ¬(x.isNaN ∧ y.isNaN) := by
    refine (host.strictEquals_true_iff h x y).trans ?_
    rw [hzero_iff]
    exact Value.related_strictEq_iff x y
  refine ⟨host.exists_answers h, hzero, hstrict, ?_, ?_, ?_, ?_⟩
  · intro x y hxy
    rw [hstrict] at hxy ⊢
    exact ⟨hzero.symm hxy.1, fun hnan => hxy.2 hnan.symm⟩
  · intro x y z hxy hyz
    rw [hstrict] at hxy hyz ⊢
    refine ⟨hzero.trans hxy.1 hyz.1, fun hnan => ?_⟩
    exact hxy.2 ⟨hnan.1, Value.isNaN_of_related ((hzero_iff x y).1 hxy.1) hnan.1⟩
  · have hsame := Value.equivalence_related Primitive.equivalence_same (O := Eq) eq_equivalence
    rwa [← funext fun x => funext fun y => propext (Value.same_iff_related x y)] at hsame
  · intro x y
    rw [hzero_iff, Value.same_iff_related]
    exact ⟨Value.Related.mono Or.inl, Host.wrappers_of_related⟩

/-- Two distinct wrappers of objects of one type, in a host for which the type alone counts. They
are strictly equal both ways around, and the same to scripts but not to the host. -/
theorem equality_relations_consistent_wrappers :
    let wrapper : Object := .ofKind (.host ⟨⟨⟨0⟩, "Money"⟩, none, fun _ => none, 0⟩)
    let heap : Heap := ⟨#[wrapper, wrapper]⟩
    let left : Value := .object ⟨0⟩
    let right : Value := .object ⟨1⟩
    let host : Host :=
      ⟨fun _ _ => .answer .undefined, fun _ => false,
        fun x => some fun y => x.type.id = y.type.id, 0⟩
    (∀ a b, host.equates a b → host.equates b a) ∧
      (∀ a b c, host.equates a b → host.equates b c → host.equates a c) ∧
      (host.strictEquals left right).Answers heap true ∧
      (host.strictEquals right left).Answers heap true ∧
      (host.sameValueZero right left).Answers heap true ∧ right.same left = false := by
  intro wrapper heap left right host
  have hequates (a b : HostObject) : host.equates a b ↔ a.type.id = b.type.id :=
    decide_eq_true_iff
  have hsymm (a b : HostObject) (hab : host.equates a b) : host.equates b a := by
    rw [hequates] at hab ⊢
    exact hab.symm
  have htrans (a b c : HostObject) (hab : host.equates a b) (hbc : host.equates b c) :
      host.equates a c := by
    rw [hequates] at hab hbc ⊢
    exact hab.trans hbc
  obtain ⟨-, -, hstrict, hstrict_symm, -⟩ := equality_relations_consistent host hsymm htrans heap
  have hleft : (host.strictEquals left right).Answers heap true := by
    intro trace
    exact ⟨_, rfl⟩
  have hright := hstrict_symm left right hleft
  exact ⟨hsymm, htrans, hleft, hright, ((hstrict right left).1 hright).1, rfl⟩

end ScriptOps
