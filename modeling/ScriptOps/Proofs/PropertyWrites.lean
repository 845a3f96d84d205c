import ScriptOps.Proofs.IntegerBinaries
import ScriptOps.World

/-!
# Assigned properties are read back

An assignment to an index or to the length of an array goes to its elements, any other one to the
explicit properties, while reading looks at the explicit properties first. So an accepted assignment
is read back unless an explicit property hides the element: there the element changes and the
property reads as before. Scripts never make such a property, because their assignments go to the
elements; only a host does, by defining an index or the length of an array.
-/

namespace ScriptOps

/-- The key of an array's length is no index. -/
theorem arrayIndexOfKey?_length : arrayIndexOfKey? "length" = none := by cbv

/-- So a key that is an index is not that of the length. -/
theorem ne_length_of_arrayIndexOfKey? {key : String} {index : Nat}
    (h : arrayIndexOfKey? key = some index) : key ≠ "length" := by
  rintro rfl
  nomatch arrayIndexOfKey?_length.symm.trans h

/-! ### Lengths -/

/-- An integer becomes the double of its value. -/
theorem Primitive.float?_ofInt {i : Int} : (Primitive.ofInt i).float? = some (floatOfInt i) := by
  unfold ofInt
  split
  · next hi => rw [float?, Int32.toInt_ofInt_of_le hi.1 hi.2]
  · rfl

/-- Numbers with equal doubles are the same. -/
theorem Primitive.same_of_beq {p q : Primitive} {x y : Float} (hp : p.float? = some x)
    (hq : q.float? = some y) (h : (x == y) = true) : p.same q = true := by
  have hsame : p.same q = (x == y || (x.isNaN && y.isNaN)) := by
    cases p with
    | int i => cases q <;> cases hp <;> cases hq <;> rfl
    | number z => cases q <;> cases hp <;> cases hq <;> rfl
    | undefined | null | bool | str => cases hp
  rw [hsame, h, Bool.true_or]

/-- Only a number is the same as a number: one with an equal double, or both are NaN. -/
theorem Primitive.float?_of_same {p q : Primitive} {x : Float} (hp : p.float? = some x)
    (h : p.same q = true) :
    ∃ y, q.float? = some y ∧ (x == y || (x.isNaN && y.isNaN)) = true := by
  cases p with
  | int i =>
    cases q <;> first | exact ⟨_, rfl, Option.some.inj hp ▸ h⟩ | nomatch h
  | number z =>
    cases q <;> first | exact ⟨_, rfl, Option.some.inj hp ▸ h⟩ | nomatch h
  | undefined | null | bool | str => nomatch hp

/-- The length that a value denotes is the same number. -/
theorem Elements.same_of_lengthOf? {v : Value} {length : Nat}
    (h : Elements.lengthOf? v = some length) :
    (Value.primitive (Primitive.ofInt length)).same v = true := by
  unfold Elements.lengthOf? at h
  split at h
  · next b hb =>
    obtain ⟨x, hx, hx'⟩ := Option.bind_eq_some_iff.1 hb
    obtain ⟨⟨hwhole, hnonneg, hle⟩, hlength⟩ := Option.ite_none_right_eq_some.1 h
    obtain ⟨p, rfl⟩ : ∃ p, v = .primitive p := by
      cases v with
      | primitive p => exact ⟨p, rfl⟩
      | object id => cases hx
    have htruncate : (length : Int) = b.truncate := by
      obtain rfl := Option.some.inj hlength
      omega
    have hbound : b.truncate.natAbs ≤ maxArrayLength := by omega
    have hsmall : b.truncate.natAbs < 2 ^ 53 := Nat.lt_of_le_of_lt hbound (by decide)
    have hbeq := Binary.floatOfInt_truncate_beq hx' hwhole hsmall
    rw [← htruncate] at hbeq
    change (Primitive.ofInt length).same p = true
    exact Primitive.same_of_beq Primitive.float?_ofInt hx hbeq
  · nomatch h

/-- A value denotes an array length exactly when it is the same number. -/
theorem Elements.lengthOf?_eq_some_iff {v : Value} {length : Nat} :
    Elements.lengthOf? v = some length ↔
      length ≤ maxArrayLength ∧ (Value.primitive (Primitive.ofInt length)).same v = true := by
  constructor
  · intro h
    refine ⟨?_, same_of_lengthOf? h⟩
    unfold lengthOf? at h
    split at h
    · obtain ⟨⟨-, hnonneg, hle⟩, hlength⟩ := Option.ite_none_right_eq_some.1 h
      obtain rfl := Option.some.inj hlength
      omega
    · nomatch h
  · rintro ⟨hle, hsame⟩
    obtain ⟨p, rfl⟩ : ∃ p, v = .primitive p := by
      cases v with
      | primitive p => exact ⟨p, rfl⟩
      | object id => nomatch hsame
    change (Primitive.ofInt length).same p = true at hsame
    have hsmall : (length : Int).natAbs < 2 ^ 53 := by
      have hmax : maxArrayLength < 2 ^ 53 := by decide
      omega
    obtain ⟨x, hx, heq⟩ := Primitive.float?_of_same Primitive.float?_ofInt hsame
    rw [isNaN_floatOfInt hsmall, Bool.false_and, Bool.or_false] at heq
    obtain ⟨b, hb, hwhole, htruncate⟩ := Binary.isWhole_of_floatOfInt_beq hsmall heq
    have hfloat : (Value.primitive p).float?.bind Binary.ofFloat? = some b := by
      rw [Value.float?, hx, Option.bind_some, hb]
    rw [lengthOf?, hfloat]
    dsimp only
    rw [if_pos ⟨hwhole, by omega, by omega⟩, htruncate]
    rfl

/-! ### Objects -/

namespace Object

/-- Whether an explicit property hides what the elements have for a key. -/
def HidesElement (o : Object) (key : String) : Prop :=
  o.kind.isElementKey key = true ∧ ∃ p, o.properties.get? key = some p

variable {o o' : Object} {key : String} {v : Value}

/-- An explicit property answers for its key. -/
theorem getOwn?_of_get? {p : Property} (h : o.properties.get? key = some p) :
    o.getOwn? key = some p.value := by
  rw [getOwn?, h]

/-- Where there is no explicit property, the object's kind answers. -/
theorem getOwn?_of_get?_eq_none (h : o.properties.get? key = none) :
    o.getOwn? key = o.kind.implicit? key := by
  rw [getOwn?, h]

/-- An object reads an assigned property back, a length as the same number. -/
theorem getOwn?_assigned? (h : o.assigned? key v = some o') (hvisible : ¬o.HidesElement key) :
    ∃ w, o'.getOwn? key = some w ∧
      (w = v ∨ (∃ e, o.kind = .array e) ∧ key = "length" ∧ w.same v = true) := by
  have hnone (helement : o.kind.isElementKey key = true) : o.properties.get? key = none :=
    Option.eq_none_iff_forall_ne_some.2 fun p hp => hvisible ⟨helement, p, hp⟩
  rcases assigned?_cases h with ⟨e, index, hkind, hindex, rfl⟩ |
    ⟨e, length, hkind, rfl, hlength, rfl⟩ | ⟨-, rfl⟩
  · have helement : o.kind.isElementKey key = true := by
      simp [ObjectKind.isElementKey, hkind, ObjectKind.elements?, hindex]
    have hkey : key ≠ "length" := by
      rintro rfl
      rw [arrayIndexOfKey?_length] at hindex
      cases hindex
    refine ⟨v, ?_, .inl rfl⟩
    refine (getOwn?_of_get?_eq_none ?_).trans ?_
    · exact hnone helement
    · simp [ObjectKind.implicit?, hkey, hindex, Elements.get?_set_self]
  · have helement : o.kind.isElementKey "length" = true := by
      simp [ObjectKind.isElementKey, hkind, ObjectKind.elements?]
    refine ⟨.primitive (Primitive.ofInt length), ?_,
      .inr ⟨⟨e, hkind⟩, rfl, Elements.same_of_lengthOf? hlength⟩⟩
    exact getOwn?_of_get?_eq_none (hnone helement)
  · refine ⟨v, ?_, .inl rfl⟩
    exact getOwn?_of_get? (p := ⟨v, true⟩) (o.properties.get?_insert_self key ⟨v, true⟩)

/-- A property that hides an element keeps its value when the element is assigned. -/
theorem getOwn?_assigned?_of_hidesElement (h : o.assigned? key v = some o')
    (hhidden : o.HidesElement key) : ∃ w, o.getOwn? key = some w ∧ o'.getOwn? key = some w := by
  obtain ⟨helement, p, hp⟩ := hhidden
  refine ⟨p.value, getOwn?_of_get? hp, ?_⟩
  rcases assigned?_cases h with ⟨e, index, -, -, rfl⟩ | ⟨e, length, -, -, -, rfl⟩ | ⟨hother, -⟩
  · exact getOwn?_of_get? hp
  · exact getOwn?_of_get? hp
  · nomatch hother.symm.trans helement

/-- A definition hides an element only under the key of one. -/
theorem HidesElement.of_define (hkey : o.kind.isElementKey key = false) {p : Property}
    {other : String} (hhidden : (o.define key p).HidesElement other) : o.HidesElement other := by
  obtain ⟨helement, q, hq⟩ := hhidden
  refine ⟨helement, ?_⟩
  by_cases hother : other = key
  · subst hother
    nomatch hkey.symm.trans helement
  · exact ⟨q, by rwa [define, Table.get?_insert_of_ne _ hother] at hq⟩

/-- Assignments do not make properties that hide elements. -/
theorem HidesElement.of_assigned? (h : o.assigned? key v = some o') {other : String}
    (hhidden : o'.HidesElement other) : o.HidesElement other := by
  rcases assigned?_cases h with ⟨e, index, hkind, -, rfl⟩ | ⟨e, length, hkind, -, -, rfl⟩ |
    ⟨hkey, rfl⟩
  · refine ⟨?_, hhidden.2⟩
    rw [ObjectKind.isElementKey, hkind]
    exact hhidden.1
  · refine ⟨?_, hhidden.2⟩
    rw [ObjectKind.isElementKey, hkind]
    exact hhidden.1
  · exact hhidden.of_define hkey

end Object

/-! ### Heaps -/

namespace Heap

variable {h h' : Heap} {id : ObjectId} {key : String} {v : Value}

/-- What an object has itself is read first. -/
theorem get_of_getOwn? {w : Value} (hown : (h.object id).getOwn? key = some w) :
    h.get id key = w := by
  rw [get, chain, chainUpTo, List.findSome?_cons, hown]
  rfl

/-- An accepted assignment changes the object. -/
theorem object_of_set? (hid : id.index < h.size) (hset : h.set? id key v = some h') :
    (h.object id).assigned? key v = some (h'.object id) ∧
      ∀ other, other ≠ id → h'.object other = h.object other := by
  unfold set? at hset
  obtain ⟨-, hmap⟩ := Option.ite_none_right_eq_some.1 hset
  obtain ⟨o, ho, rfl⟩ := Option.map_eq_some_iff.1 hmap
  rw [ho, object_update_self h id o hid]
  exact ⟨rfl, fun other hother => object_update_of_ne h hother o⟩

/-- No explicit property hides an element. -/
def ShowsElements (h : Heap) : Prop :=
  ∀ id key, ¬(h.object id).HidesElement key

/-- The heaps that arise from the empty one by creating objects, by assignments, by setting
prototypes, and by defining properties other than the indices and the length of an array. -/
inductive Unhidden : Heap → Prop where
  | empty : Unhidden .empty
  | create {h : Heap} (kind : ObjectKind) : Unhidden h → Unhidden (h.create kind).2
  | define {h : Heap} (id : ObjectId) (key : String) (p : Property) : Unhidden h →
    (h.kind id).isElementKey key = false → Unhidden (h.define id key p)
  | set {h h' : Heap} (id : ObjectId) (key : String) (v : Value) : Unhidden h →
    h.set? id key v = some h' → Unhidden h'
  | setPrototype {h h' : Heap} (id : ObjectId) (prototype? : Option ObjectId) : Unhidden h →
    h.setPrototype? id prototype? = some h' → Unhidden h'

/-- Only a definition of an index or of the length of an array hides an element. -/
theorem Unhidden.showsElements (hh : h.Unhidden) : h.ShowsElements := by
  let P (_ : ObjectId) (o : Object) : Prop := ∀ key, ¬o.HidesElement key
  have hfresh (kind : ObjectKind) (key : String) : ¬(Object.ofKind kind).HidesElement key := by
    rintro ⟨-, p, hp⟩
    cases hp
  induction hh with
  | empty => exact fun _ => hfresh .ordinary
  | create kind _ ih => exact forall_object_add (P := P) ih (hfresh kind)
  | @define h id key p _ hkey ih =>
    have hdefine : P id ((h.object id).define key p) :=
      fun other hhidden => ih id other (hhidden.of_define hkey)
    exact forall_object_update (P := P) ih hdefine
  | @set h h' id key v _ hset ih =>
    have hassigned (o : Object) (ho : (h.object id).assigned? key v = some o) : P id o :=
      fun other hhidden => ih id other (hhidden.of_assigned? ho)
    exact forall_object_set? (P := P) ih hset hassigned
  | setPrototype id prototype? _ hset ih =>
    exact forall_object_setPrototype? (P := P) ih hset (ih id)

end Heap

/-- An assignment is accepted or refused. One that is refused leaves the world as it was. One that
is accepted changes a single object, and the property reads as the assigned value; the length of an
array reads as the same number. The exception is a property that hides an element: it reads as
before. No heap has one unless an index or the length of an array was defined explicitly. -/
theorem assigned_property_read_back (w : World) {id : ObjectId} (hid : id.index < w.heap.size)
    (key : String) (v : Value) :
    (∃ accepted w', Action.assign id key v w = .ok accepted w') ∧
    (∀ w', Action.assign id key v w = .ok false w' → w' = w) ∧
    (∀ w', Action.assign id key v w = .ok true w' →
      w'.trace = w.trace ∧ (∀ other, other ≠ id → w'.heap.object other = w.heap.object other) ∧
      (¬(w.heap.object id).HidesElement key → w'.heap.get id key = v ∨
        (∃ e, w.heap.kind id = .array e) ∧ key = "length" ∧
          (w'.heap.get id key).same v = true) ∧
      ((w.heap.object id).HidesElement key → w'.heap.get id key = w.heap.get id key)) ∧
    (w.heap.Unhidden → ¬(w.heap.object id).HidesElement key) := by
  have hassign := Action.assign_eq id key v w
  have hshows (hunhidden : w.heap.Unhidden) : ¬(w.heap.object id).HidesElement key :=
    hunhidden.showsElements id key
  cases hset : w.heap.set? id key v with
  | none =>
    rw [hset] at hassign
    refine ⟨⟨false, w, hassign⟩, fun w' hrefused => ?_, fun w' haccepted => ?_, hshows⟩
    · cases hassign.symm.trans hrefused
      rfl
    · cases hassign.symm.trans haccepted
  | some h' =>
    rw [hset] at hassign
    refine ⟨⟨true, _, hassign⟩, fun w' hrefused => ?_, fun w' haccepted => ?_, hshows⟩
    · cases hassign.symm.trans hrefused
    · cases hassign.symm.trans haccepted
      obtain ⟨hassigned, hframe⟩ := Heap.object_of_set? hid hset
      refine ⟨rfl, hframe, fun hvisible => ?_, fun hhidden => ?_⟩
      · obtain ⟨value, hown, hvalue⟩ := Object.getOwn?_assigned? hassigned hvisible
        rw [Heap.get_of_getOwn? hown]
        exact hvalue
      · obtain ⟨value, hbefore, hafter⟩ :=
          Object.getOwn?_assigned?_of_hidesElement hassigned hhidden
        rw [Heap.get_of_getOwn? hafter, Heap.get_of_getOwn? hbefore]

open Primitive in
/-- An element assigned behind the end of an array reads back as the assigned value. -/
theorem assigned_property_read_back_element :
    let h := (Heap.empty.create (.array (.ofList [(int 1 : Value)]))).2
    0 < h.size ∧ ∃ h', Action.assign ⟨0⟩ "1" (int 7) ⟨h, []⟩ = .ok true ⟨h', []⟩ ∧
      h'.get ⟨0⟩ "1" = int 7 := by
  let h := (Heap.empty.create (.array (.ofList [(int 1 : Value)]))).2
  have hid : 0 < h.size := by decide
  obtain ⟨-, -, haccepted, hunhidden⟩ :=
    assigned_property_read_back ⟨h, []⟩ (show (⟨0⟩ : ObjectId).index < h.size from hid) "1" (int 7)
  have hvisible := hunhidden (.create _ .empty)
  have hassign : ∃ h', Action.assign ⟨0⟩ "1" (int 7) ⟨h, []⟩ = .ok true ⟨h', []⟩ := ⟨_, by cbv⟩
  obtain ⟨h', hassign⟩ := hassign
  refine ⟨hid, h', hassign, ?_⟩
  rcases (haccepted _ hassign).2.2.1 hvisible with hread | ⟨-, hkey, -⟩
  · exact hread
  · exact absurd hkey (by decide)

open Primitive in
/-- An explicit property `0` of an array keeps its value when the element is assigned. -/
theorem assigned_property_not_read_back_hidden :
    let array := (Heap.empty.create (.array (.ofList [(int 1 : Value)]))).2
    let h := array.define ⟨0⟩ "0" ⟨int 5, true⟩
    ∃ h', Action.assign ⟨0⟩ "0" (int 7) ⟨h, []⟩ = .ok true ⟨h', []⟩ ∧
      h'.get ⟨0⟩ "0" = int 5 ∧ (int 5 : Value) ≠ int 7 :=
  ⟨_, by cbv, by cbv, by simp⟩

end ScriptOps
