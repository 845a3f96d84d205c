import Mathlib.Combinatorics.Pigeonhole
import ScriptOps.Proofs.PropertyWrites
import ScriptOps.Proofs.PrototypeChains

/-!
# Membership and reading agree

Whether an object has a property and what it reads as are found out by two walks along the
prototypes, with two tables of what the kinds of objects bring along: one asks, the other takes the
value. They stop at the same object. So a check answers what the read that follows will find, for
the operator `in` as for the methods that convert an object, which are looked for before they are
fetched.

The walks are cut off after as many objects as the heap has. They miss nothing by that, even if the
prototypes went round in a circle: what can be reached at all can be reached without meeting an
object twice.
-/

namespace ScriptOps

/-! ### Own properties -/

/-- What a kind brings along is there exactly when it has a value. -/
theorem ObjectKind.hasImplicit_eq_isSome (kind : ObjectKind) (key : String) :
    kind.hasImplicit key = (kind.implicit? key).isSome := by
  cases kind with
  | array e =>
    by_cases hlength : key = "length"
    · rw [hasImplicit, implicit?, if_pos hlength, if_pos hlength, Option.isSome_some]
    · rw [hasImplicit, implicit?, if_neg hlength, if_neg hlength]
      cases arrayIndexOfKey? key with
      | none => rfl
      | some index => exact e.contains_eq_isSome index
  | function f => by_cases hname : key = "name" <;> simp [hasImplicit, implicit?, hname]
  | host h => rfl
  | ordinary | date | hostType => rfl

/-- An object has a property of its own exactly when it reads one of its own. -/
theorem Object.hasOwn_eq_isSome (o : Object) (key : String) :
    o.hasOwn key = (o.getOwn? key).isSome := by
  rw [hasOwn, Table.contains]
  cases hproperty : o.properties.get? key with
  | some p =>
    rw [getOwn?_of_get? hproperty]
    rfl
  | none =>
    rw [getOwn?_of_get?_eq_none hproperty, Option.isSome_none, Bool.false_or,
      o.kind.hasImplicit_eq_isSome]

namespace Heap

/-! ### Steps upward -/

/-- The object that lies a number of prototypes above another one. -/
def above? (h : Heap) (id : ObjectId) : Nat → Option ObjectId
  | 0 => some id
  | n + 1 => (h.above? id n).bind fun o => (h.object o).prototype?

/-- The nearest object on the way upward that has a property of its own supplies the value. -/
def Supplies (h : Heap) (id : ObjectId) (key : String) (v : Value) : Prop :=
  ∃ n o, h.above? id n = some o ∧ (h.object o).getOwn? key = some v ∧
    ∀ m < n, ∀ below, h.above? id m = some below → (h.object below).hasOwn key = false

variable {h : Heap} {id : ObjectId} {key : String}

/-- A way upward from an object goes on as the way from where it has come to. -/
theorem above?_add (h : Heap) (id : ObjectId) (m n : Nat) :
    h.above? id (m + n) = (h.above? id m).bind fun o => h.above? o n := by
  induction n with
  | zero => simp [above?]
  | succ n ih => rw [← Nat.add_assoc, above?, ih, Option.bind_assoc]; rfl

/-- What lies below another object has a prototype, so it is an object of the heap. -/
theorem exists_above?_of_lt {n : Nat} {o : ObjectId} (ho : h.above? id n = some o) :
    ∀ m < n, ∃ below, h.above? id m = some below ∧ below.index < h.size := by
  intro m hm
  obtain ⟨k, rfl⟩ : ∃ k, n = m + 1 + k := ⟨n - (m + 1), by omega⟩
  rw [above?_add] at ho
  obtain ⟨next, hnext, -⟩ := Option.bind_eq_some_iff.1 ho
  obtain ⟨below, hbelow, hprototype⟩ := Option.bind_eq_some_iff.1 hnext
  refine ⟨below, hbelow, ?_⟩
  by_contra hsize
  rw [h.object_of_ge (Nat.le_of_not_lt hsize)] at hprototype
  nomatch hprototype

/-- What can be reached is reached within as many steps as the heap has objects: on a longer way one
of them is met twice, and the steps between can be left out. -/
theorem exists_above?_le_size {n : Nat} {o : ObjectId} (ho : h.above? id n = some o) :
    ∃ m ≤ n, m ≤ h.size ∧ h.above? id m = some o := by
  induction n using Nat.strongRecOn with
  | ind n ih =>
    by_cases hn : n ≤ h.size
    · exact ⟨n, le_refl n, hn, ho⟩
    choose! met hmet hlt using exists_above?_of_lt ho
    have hcard : (Finset.range h.size).card < (Finset.range n).card := by
      rw [Finset.card_range, Finset.card_range]
      exact Nat.lt_of_not_le hn
    have hmaps : Set.MapsTo (fun m => (met m).index) (Finset.range n) (Finset.range h.size) :=
      fun m hm => Finset.mem_coe.2 (Finset.mem_range.2 (hlt m (Finset.mem_range.1 hm)))
    obtain ⟨i, j, hij, hjn, hsame⟩ : ∃ i j, i < j ∧ j < n ∧ met i = met j := by
      obtain ⟨i, hi, j, hj, hne, hindex⟩ :=
        Finset.exists_ne_map_eq_of_card_lt_of_maps_to hcard hmaps
      have hsame : met i = met j := congrArg ObjectId.mk hindex
      rcases Nat.lt_or_gt_of_ne hne with hlt | hgt
      · exact ⟨i, j, hlt, Finset.mem_range.1 hj, hsame⟩
      · exact ⟨j, i, hgt, Finset.mem_range.1 hi, hsame.symm⟩
    obtain ⟨k, rfl⟩ := Nat.exists_eq_add_of_lt hjn
    have hshort : h.above? id (i + (k + 1)) = some o := by
      rw [above?_add, hmet i (by omega), hsame, ← hmet j hjn, ← above?_add]
      exact ho
    obtain ⟨m, hm, hsize, hmo⟩ := ih (i + (k + 1)) (by omega) hshort
    exact ⟨m, by omega, hsize, hmo⟩

/-- The first step upward. -/
theorem above?_succ (h : Heap) (id : ObjectId) (n : Nat) :
    h.above? id (n + 1) = (h.object id).prototype?.bind fun next => h.above? next n := by
  rw [Nat.add_comm, above?_add]
  rfl

/-- The walk upward lists what lies above an object step by step. -/
theorem getElem?_chainUpTo (h : Heap) (fuel : Nat) (id : ObjectId) (n : Nat) :
    (h.chainUpTo fuel id)[n]? = if n < fuel then h.above? id n else none := by
  induction fuel generalizing id n with
  | zero => rfl
  | succ fuel ih =>
    rw [chainUpTo]
    cases n with
    | zero => rfl
    | succ n =>
      rw [List.getElem?_cons_succ, above?_succ]
      cases (h.object id).prototype? with
      | none => simp
      | some next => simp [ih]

/-- It misses nothing. -/
theorem mem_chain_iff {o : ObjectId} : o ∈ h.chain id ↔ ∃ n, h.above? id n = some o := by
  rw [List.mem_iff_getElem?]
  constructor
  · rintro ⟨n, hn⟩
    rw [chain, getElem?_chainUpTo] at hn
    exact ⟨n, (Option.ite_none_right_eq_some.1 hn).2⟩
  · rintro ⟨n, hn⟩
    obtain ⟨m, -, hsize, hm⟩ := exists_above?_le_size hn
    refine ⟨m, ?_⟩
    rw [chain, getElem?_chainUpTo, if_pos (Nat.lt_succ_of_le hsize), hm]

/-! ### The two walks -/

/-- A property exists when an object on the way upward has it. -/
theorem has_iff_above :
    h.has id key = true ↔ ∃ n o, h.above? id n = some o ∧ (h.object o).hasOwn key = true := by
  rw [has, List.any_eq_true]
  constructor
  · rintro ⟨o, ho, hown⟩
    obtain ⟨n, hn⟩ := mem_chain_iff.1 ho
    exact ⟨n, o, hn, hown⟩
  · rintro ⟨n, o, hn, hown⟩
    exact ⟨o, mem_chain_iff.2 ⟨n, hn⟩, hown⟩

/-- Only one value is supplied. -/
theorem Supplies.unique {v w : Value} (hv : h.Supplies id key v) (hw : h.Supplies id key w) :
    v = w := by
  obtain ⟨m, o, ho, hov, hbelow⟩ := hv
  obtain ⟨n, o', ho', how, hbelow'⟩ := hw
  rcases Nat.lt_trichotomy m n with hlt | rfl | hgt
  · have hown := hbelow' m hlt o ho
    rw [Object.hasOwn_eq_isSome, hov] at hown
    nomatch hown
  · cases ho.symm.trans ho'
    exact Option.some.inj (hov.symm.trans how)
  · have hown := hbelow n hgt o' ho'
    rw [Object.hasOwn_eq_isSome, how] at hown
    nomatch hown

/-- What exists is read from the nearest object that has it. -/
theorem supplies_get (hhas : h.has id key = true) : h.Supplies id key (h.get id key) := by
  have hfound : ((h.chain id).findSome? fun o => (h.object o).getOwn? key).isSome = true := by
    rw [List.isSome_findSome?, ← hhas, has]
    simp only [Object.hasOwn_eq_isSome]
  obtain ⟨v, hv⟩ := Option.isSome_iff_exists.1 hfound
  have hget : h.get id key = v := by rw [get, hv, Option.getD_some]
  obtain ⟨before, o, after, hchain, hown, hbefore⟩ := List.findSome?_eq_some_iff.1 hv
  have hstep (n : Nat) : (before ++ o :: after)[n]? =
      if n < h.size + 1 then h.above? id n else none := by
    rw [← hchain, chain, getElem?_chainUpTo]
  have hat := hstep before.length
  rw [List.getElem?_append_right (Nat.le_refl _), Nat.sub_self, List.getElem?_cons_zero] at hat
  obtain ⟨hlength, ho⟩ := Option.ite_none_right_eq_some.1 hat.symm
  rw [hget]
  refine ⟨before.length, o, ho, hown, fun m hm below hbelow => ?_⟩
  have hearlier := hstep m
  rw [List.getElem?_append_left hm, if_pos (Nat.lt_trans hm hlength), hbelow] at hearlier
  rw [Object.hasOwn_eq_isSome, hbefore below (List.mem_of_getElem? hearlier), Option.isSome_none]

/-- A value is supplied exactly when the property exists and reads as the value. -/
theorem supplies_iff {v : Value} :
    h.Supplies id key v ↔ h.has id key = true ∧ h.get id key = v := by
  constructor
  · intro hv
    have ⟨n, o, ho, hown, _⟩ := hv
    have hhas : h.has id key = true :=
      has_iff_above.2 ⟨n, o, ho, by rw [Object.hasOwn_eq_isSome, hown, Option.isSome_some]⟩
    exact ⟨hhas, (supplies_get hhas).unique hv⟩
  · rintro ⟨hhas, rfl⟩
    exact supplies_get hhas

/-- What does not exist reads as undefined. -/
theorem get_of_has_eq_false (hhas : h.has id key = false) : h.get id key = .undefined := by
  have hnone : ((h.chain id).findSome? fun o => (h.object o).getOwn? key) = none := by
    rw [← Option.isNone_iff_eq_none, ← Option.isSome_eq_false_iff, List.isSome_findSome?, ← hhas,
      has]
    simp only [Object.hasOwn_eq_isSome]
  rw [get, hnone, Option.getD_none]

end Heap

/-! ### Checks before reads -/

/-- The answer of the operator `in` is on the property that the key names when the key has been
converted. -/
theorem isMember_eq_ok {host : Host} {left : Value} {id : ObjectId} {w w' : World} {b : Bool}
    (h : isMember host left (.object id) w = .ok b w') :
    ∃ key, host.toPropertyKey left w = .ok key w' ∧ b = w'.heap.has id key := by
  obtain ⟨key, w'', hkey, hrest⟩ := ok_of_bind h
  cases hrest
  exact ⟨key, hkey, rfl⟩

/-- A conversion method that the check finds is the one that is fetched. -/
theorem Coercion.runMethod?_of_supplies {host : Host} {text : Value → Action String}
    {id : ObjectId} {method : ConversionMethod} {w : World} {v : Value} :
    w.heap.Supplies id method.key v → runMethod? host text id method w = match v with
      | .object f =>
        if w.heap.isCallable f then (some <$> host.call f (.object id) []) w else .ok none w
      | .primitive _ => .ok none w := by
  intro hv
  obtain ⟨hhas, hget⟩ := Heap.supplies_iff.1 hv
  have hheap : (Action.heap : Action Heap) w = .ok w.heap w := rfl
  refine (bind_of_ok hheap).trans ?_
  rw [if_pos hhas, hget]
  cases v with
  | primitive p => rfl
  | object f =>
    dsimp only
    split <;> rfl

/-- One that it does not find is supplied by the kind of the object. -/
theorem Coercion.runMethod?_of_missing {host : Host} {text : Value → Action String}
    {id : ObjectId} {method : ConversionMethod} {w : World}
    (hnone : ∀ v, ¬w.heap.Supplies id method.key v) :
    runMethod? host text id method w = (some <$> builtinMethod text id method) w := by
  have hheap : (Action.heap : Action Heap) w = .ok w.heap w := rfl
  have hhas : ¬w.heap.has id method.key = true := fun hhas => hnone _ (Heap.supplies_get hhas)
  refine (bind_of_ok hheap).trans ?_
  rw [if_neg hhas]

/-- Membership and reading agree. Of every object a key is an own property exactly when it reads an
own value. Along the prototypes a property exists exactly when some object on the way upward has it;
then it reads as the own value of the first such object, and otherwise as undefined. So the operator
`in` is true exactly when some object supplies the property, which is then what reading gives, and a
conversion runs the method that an object supplies, or the one of the kind when none does: what was
checked is what is fetched. -/
theorem membership_agrees_with_reading (h : Heap) (id : ObjectId) (key : String) :
    (∀ o : Object, o.hasOwn key = true ↔ ∃ v, o.getOwn? key = some v) ∧
    (h.has id key = true ↔ ∃ n o, h.above? id n = some o ∧ (h.object o).hasOwn key = true) ∧
    (∀ v, h.Supplies id key v ↔ h.has id key = true ∧ h.get id key = v) ∧
    (h.has id key = false → h.get id key = .undefined) ∧
    (∀ (host : Host) (left : Value) (trace : List Event) (w' : World) (b : Bool),
      isMember host left (.object id) ⟨h, trace⟩ = .ok b w' →
        ∃ name, host.toPropertyKey left ⟨h, trace⟩ = .ok name w' ∧
          (b = true → w'.heap.Supplies id name (w'.heap.get id name)) ∧
          (b = false → (∀ v, ¬w'.heap.Supplies id name v) ∧ w'.heap.get id name = .undefined)) ∧
    ∀ (host : Host) (text : Value → Action String) (method : ConversionMethod)
        (trace : List Event),
      (∀ v, h.Supplies id method.key v →
        Coercion.runMethod? host text id method ⟨h, trace⟩ = match v with
          | .object f =>
            if h.isCallable f then (some <$> host.call f (.object id) []) ⟨h, trace⟩
            else .ok none ⟨h, trace⟩
          | .primitive _ => .ok none ⟨h, trace⟩) ∧
      ((∀ v, ¬h.Supplies id method.key v) →
        Coercion.runMethod? host text id method ⟨h, trace⟩ =
          (some <$> Coercion.builtinMethod text id method) ⟨h, trace⟩) := by
  refine ⟨fun o => ?_, Heap.has_iff_above, fun v => Heap.supplies_iff, Heap.get_of_has_eq_false,
    fun host left trace w' b hmember => ?_, fun host text method trace =>
      ⟨fun v hv => Coercion.runMethod?_of_supplies hv,
        fun hnone => Coercion.runMethod?_of_missing hnone⟩⟩
  · rw [Object.hasOwn_eq_isSome, Option.isSome_iff_exists]
  · obtain ⟨name, hname, rfl⟩ := isMember_eq_ok hmember
    refine ⟨name, hname, Heap.supplies_get, fun hhas => ⟨fun v hv => ?_,
      Heap.get_of_has_eq_false hhas⟩⟩
    nomatch (Heap.supplies_iff.1 hv).1.symm.trans hhas

end ScriptOps
