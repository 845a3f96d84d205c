import ScriptOps.Proofs.PrototypeChains
import ScriptOps.Proofs.PropertyWrites
import ScriptOps.Proofs.SparseArrays

/-!
# Which indices of an array are present

An index of an array is present when it has an element; an absent one is looked for in the
prototypes. A write makes its own index present. Where it lands a little past the dense front, the
front grows up to it, and the slots on the way become present as well, as undefined. A write farther
out leaves them absent. A length takes away what lies at or past it, and nothing else does.

Presence is so decided by the writes and lengths alone: the end of the dense front is a function of
them too, `ArrayChange.front`, and it tells which slots a write takes along. What a present index
holds is told by the sparse array that took the same changes.
-/

namespace ScriptOps

/-! ### What a change does to an index -/

namespace ArrayChange

/-- The end of the dense front after a change. -/
def front (size : Nat) : ArrayChange → Nat
  | set index _ => if size ≤ index ∧ index < size + Elements.maxDenseGap then index + 1 else size
  | setLength length => min length size

/-- The change makes an index present: it writes the index, or it writes past it and the front grows
over it. -/
def Makes (size index : Nat) : ArrayChange → Prop
  | set written _ =>
    index = written ∨ size ≤ index ∧ index < written ∧ written < size + Elements.maxDenseGap
  | setLength _ => False

/-- The change takes an index away. -/
def Cuts (index : Nat) : ArrayChange → Prop
  | set .. => False
  | setLength length => length ≤ index

/-- One of the changes makes an index present, and none after it takes the index away. The front
ends at `size` before the first of them. -/
def Made (size index : Nat) (changes : List ArrayChange) : Prop :=
  ∃ before c after, changes = before ++ c :: after ∧ c.Makes (before.foldl front size) index ∧
    ∀ later ∈ after, ¬later.Cuts index

/-- An index is present after the changes to a list of `size` values: a value of the list, or made
present since, and not taken away. -/
def Present (size index : Nat) (changes : List ArrayChange) : Prop :=
  (index < size ∧ ∀ c ∈ changes, ¬c.Cuts index) ∨ Made size index changes

/-- The first change makes the index present for good, or one of the others does. -/
theorem made_cons {size index : Nat} {c : ArrayChange} {rest : List ArrayChange} :
    Made size index (c :: rest) ↔
      (c.Makes size index ∧ ∀ later ∈ rest, ¬later.Cuts index) ∨
        Made (c.front size) index rest := by
  constructor
  · rintro ⟨before, c', after, hsplit, hmakes, hafter⟩
    cases before with
    | nil =>
      obtain ⟨rfl, rfl⟩ := List.cons.inj hsplit
      exact .inl ⟨hmakes, hafter⟩
    | cons first before =>
      obtain ⟨rfl, rfl⟩ := List.cons.inj hsplit
      exact .inr ⟨before, c', after, rfl, hmakes, hafter⟩
  · rintro (⟨hmakes, hrest⟩ | ⟨before, c', after, rfl, hmakes, hafter⟩)
    · exact ⟨[], c, rest, rfl, hmakes, hrest⟩
    · exact ⟨c :: before, c', after, rfl, hmakes, hafter⟩

end ArrayChange

namespace Elements

/-! ### One change -/

/-- Growth makes all slots of the front present, and leaves what lies past it. -/
theorem contains_growDense (e : Elements) (size index : Nat) :
    (e.growDense size).contains index = (index < size || e.sparse.contains index) := by
  rw [contains, size_growDense, growDense, Table.contains, Table.get?_filterKeys, Table.contains]
  by_cases h : index < size
  · simp [h]
  · simp [h, Nat.le_of_not_lt h]

/-- A write makes present what it makes present, and keeps what was. -/
theorem contains_set (e : Elements) (index other : Nat) (v : Value) :
    (e.set index v).contains other ↔
      (ArrayChange.set index v).Makes e.dense.size other ∨ e.contains other := by
  have hcontains : (e.set index v).contains other = (e.store index v).contains other := rfl
  rw [hcontains, store, ArrayChange.Makes]
  split
  · next h =>
    simp only [contains, Array.size_setIfInBounds, Bool.or_eq_true, decide_eq_true_eq, ← or_assoc]
    refine or_congr_left ?_
    omega
  · next h =>
    split
    · next hgap =>
      have hgrown := e.contains_growDense (index + 1) other
      simp only [contains, Array.size_setIfInBounds] at hgrown ⊢
      rw [hgrown]
      simp only [Bool.or_eq_true, decide_eq_true_eq, ← or_assoc]
      refine or_congr_left ?_
      omega
    · next hgap =>
      have hapart : ¬(e.dense.size ≤ other ∧ other < index ∧
          index < e.dense.size + maxDenseGap) := by omega
      simp only [contains, Table.contains, Table.get?_insert, Bool.or_eq_true, decide_eq_true_eq]
      split
      · next heq => simp [heq]
      · next hne => simp [hne, hapart]

/-- A length keeps the present indices below it. -/
theorem contains_setLength (e : Elements) (length index : Nat) :
    (e.setLength length).contains index ↔ index < length ∧ e.contains index := by
  rw [contains_eq_isSome, contains_eq_isSome, get?_setLength]
  split <;> simp [*]

/-- An index is present after a change if the change makes it present, or it was present and is not
taken away. -/
theorem contains_change (e : Elements) (c : ArrayChange) (index : Nat) :
    (e.change c).contains index ↔
      c.Makes e.dense.size index ∨ e.contains index ∧ ¬c.Cuts index := by
  cases c with
  | set written v =>
    rw [change, contains_set]
    simp [ArrayChange.Cuts]
  | setLength length =>
    rw [change, contains_setLength]
    simp [ArrayChange.Makes, ArrayChange.Cuts, and_comm]

/-- The end of the front after a change is told by the change and the end before it. -/
theorem size_dense_change (e : Elements) (c : ArrayChange) :
    (e.change c).dense.size = c.front e.dense.size := by
  cases c with
  | set index v =>
    change (e.store index v).dense.size = _
    rw [store, ArrayChange.front]
    split
    · next h =>
      rw [if_neg (by omega), Array.size_setIfInBounds]
    · next h =>
      split
      · next hgap => rw [if_pos (by omega), Array.size_setIfInBounds, size_growDense]
      · next hgap => rw [if_neg (by omega)]
  | setLength length =>
    change (e.dense.extract 0 length).size = min length e.dense.size
    rw [Array.size_extract, Nat.sub_zero]

/-! ### Many changes -/

/-- After some changes an index is present if it was so from the start or was made so by one of
them, and was not taken away since. -/
theorem contains_run (e : Elements) (changes : List ArrayChange) (index : Nat) :
    (changes.foldl change e).contains index ↔
      (e.contains index ∧ ∀ c ∈ changes, ¬c.Cuts index) ∨
        ArrayChange.Made e.dense.size index changes := by
  induction changes generalizing e with
  | nil =>
    have hnone : ¬ArrayChange.Made e.dense.size index [] := by
      rintro ⟨before, c, after, hsplit, -⟩
      cases before <;> nomatch hsplit
    simp [hnone]
  | cons c rest ih =>
    rw [List.foldl_cons, ih, contains_change, size_dense_change, ArrayChange.made_cons,
      List.forall_mem_cons]
    constructor
    · rintro (⟨hmakes | ⟨hcontains, hcuts⟩, hrest⟩ | hlater)
      · exact .inr (.inl ⟨hmakes, hrest⟩)
      · exact .inl ⟨hcontains, hcuts, hrest⟩
      · exact .inr (.inr hlater)
    · rintro (⟨hcontains, hcuts, hrest⟩ | ⟨hmakes, hrest⟩ | hlater)
      · exact .inl ⟨.inr ⟨hcontains, hcuts⟩, hrest⟩
      · exact .inl ⟨.inl hmakes, hrest⟩
      · exact .inr hlater

/-- A present index holds what it reads as. -/
theorem get?_of_contains {e : Elements} {index : Nat} (h : e.contains index = true) :
    e.get? index = some (e.read index) := by
  rw [contains_eq_isSome, Option.isSome_iff_exists] at h
  obtain ⟨v, hv⟩ := h
  rw [read, hv, Option.getD_some]

/-- A write that makes another index present makes it undefined. -/
theorem get?_set_of_absent {e : Elements} (he : e.IsApart) {index written : Nat} {v u : Value}
    (habsent : e.get? index = none) (hne : index ≠ written)
    (hget : (e.set written v).get? index = some u) : u = .undefined := by
  rw [get?_set he, if_neg hne] at hget
  split at hget
  · rw [← Option.some.inj hget, read, habsent, Option.getD_none]
  · exact absurd (habsent.symm.trans hget) (Option.some_ne_none u).symm

/-- Front and tail are apart after any changes to a list. -/
theorem isApart_run (values : List Value) (changes : List ArrayChange) :
    (changes.foldl change (ofList values)).IsApart :=
  List.foldlRecOn changes change (.ofList values) fun _ he c _ => he.change c

/-- The list that an array begins with takes the indices below its length. -/
theorem contains_ofList (values : List Value) (index : Nat) :
    (ofList values).contains index ↔ index < values.length := by
  simp [contains, ofList, Table.contains]

end Elements

/-! ### What is asked of an array -/

section

variable {o : Object} {e : Elements} {key : String} {index : Nat}

/-- Under an index an array has what its elements have. -/
theorem ObjectKind.implicit?_of_index (hindex : arrayIndexOfKey? key = some index) :
    (array e).implicit? key = e.get? index := by
  rw [implicit?, if_neg (ne_length_of_arrayIndexOfKey? hindex), hindex, Option.bind_some]

/-- Under an index an array has a property exactly when the elements have it. -/
theorem ObjectKind.hasImplicit_of_index (hindex : arrayIndexOfKey? key = some index) :
    (array e).hasImplicit key = e.contains index := by
  rw [hasImplicit, if_neg (ne_length_of_arrayIndexOfKey? hindex), hindex]

namespace Object

/-- Where no explicit property hides an index, the object has what its elements have. -/
theorem getOwn?_of_index (hkind : o.kind = .array e) (hindex : arrayIndexOfKey? key = some index)
    (hvisible : o.properties.get? key = none) : o.getOwn? key = e.get? index := by
  rw [getOwn?_of_get?_eq_none hvisible, hkind, ObjectKind.implicit?_of_index hindex]

/-- Where no explicit property hides an index, it is an own property exactly when it is present. -/
theorem hasOwn_of_index (hkind : o.kind = .array e) (hindex : arrayIndexOfKey? key = some index)
    (hvisible : o.properties.get? key = none) : o.hasOwn key = e.contains index := by
  rw [hasOwn, Table.contains, hvisible, hkind, ObjectKind.hasImplicit_of_index hindex]
  rfl

/-- A present index is an own property, be it hidden by an explicit one or not. -/
theorem hasOwn_of_contains (hkind : o.kind = .array e) (hindex : arrayIndexOfKey? key = some index)
    (hcontains : e.contains index = true) : o.hasOwn key = true := by
  rw [hasOwn, hkind, ObjectKind.hasImplicit_of_index hindex, hcontains, Bool.or_true]

/-- A present index is read from the object itself. -/
theorem getOwn?_of_contains (hkind : o.kind = .array e)
    (hindex : arrayIndexOfKey? key = some index) (hcontains : e.contains index = true) :
    ∃ v, o.getOwn? key = some v := by
  cases hproperty : o.properties.get? key with
  | some p => exact ⟨p.value, getOwn?_of_get? hproperty⟩
  | none =>
    rw [getOwn?_of_index hkind hindex hproperty]
    rwa [Elements.contains_eq_isSome, Option.isSome_iff_exists] at hcontains

end Object

end

/-- What an object does not have is looked for in its prototype, if there is one. -/
theorem Heap.IsGrounded.lookup_of_not_own {h : Heap} (hh : h.IsGrounded) {id : ObjectId}
    {key : String} (hhas : (h.object id).hasOwn key = false)
    (hget : (h.object id).getOwn? key = none) :
    (∀ prototype, (h.object id).prototype? = some prototype →
      h.has id key = h.has prototype key ∧ h.get id key = h.get prototype key) ∧
    ((h.object id).prototype? = none → h.has id key = false ∧ h.get id key = .undefined) := by
  have hhas' := hh.has_eq id key
  have hget' := hh.get_eq id key
  rw [hhas, Bool.false_or] at hhas'
  rw [hget] at hget'
  refine ⟨fun prototype hprototype => ?_, fun hprototype => ?_⟩
  · rw [hprototype] at hhas' hget'
    exact ⟨hhas', hget'⟩
  · rw [hprototype] at hhas' hget'
    exact ⟨hhas', hget'⟩

/-- A text is its own key, so membership looks it up at once. -/
theorem isMember_of_key (host : Host) (key : String) (id : ObjectId) (w : World) :
    isMember host (.primitive (.str key)) (.object id) w = .ok (w.heap.has id key) w :=
  rfl

/-- Membership in an array follows the writes. After any writes and lengths an index has an element
exactly when it was a value of the list that the array began with, or a write made it present, and
no length at or below it came since. A write makes its own index present, and with it the slots
between the end of the front and the index when the index is less than 1024 past that end; the slots
that were absent become present as undefined. A present index has the value that a sparse array has
there after the same changes: the last one that it was given, and undefined if it was given none.
Lookups go by this: a present index is a member and is read from the array, from its elements unless
an explicit property hides them; an absent one is left to the prototype, unless an explicit property
stands for it. -/
theorem array_membership (initial : List Value) (changes : List ArrayChange) (index : Nat) :
    let e := changes.foldl Elements.change (.ofList initial)
    let present := ArrayChange.Present initial.length index changes
    ((∃ v, e.get? index = some v) ↔ present) ∧
    (e.contains index ↔ present) ∧
    (present →
      e.get? index = some ((changes.foldl SparseArray.change (.ofList initial)).read index)) ∧
    (∀ written v u, ¬present → index ≠ written →
      (e.change (.set written v)).get? index = some u → u = .undefined) ∧
    ∀ (w : World) (host : Host) (id : ObjectId) (key : String), w.heap.Reachable →
      w.heap.kind id = .array e → arrayIndexOfKey? key = some index →
      (present → isMember host (.str key) (.object id) w = .ok true w ∧
        (w.heap.object id).getOwn? key = some (w.heap.get id key)) ∧
      ((w.heap.object id).properties.get? key = none →
        (present → e.get? index = some (w.heap.get id key)) ∧
        (¬present →
          (∀ prototype, (w.heap.object id).prototype? = some prototype →
            isMember host (.str key) (.object id) w =
              isMember host (.str key) (.object prototype) w ∧
            w.heap.get id key = w.heap.get prototype key) ∧
          ((w.heap.object id).prototype? = none →
            isMember host (.str key) (.object id) w = .ok false w ∧
            w.heap.get id key = .undefined))) := by
  intro e present
  have hcontains : e.contains index ↔ present := by
    rw [Elements.contains_run, Elements.contains_ofList]
    rfl
  have hget : (∃ v, e.get? index = some v) ↔ present := by
    rw [← hcontains, Elements.contains_eq_isSome, Option.isSome_iff_exists]
  have hnone (habsent : ¬present) : e.get? index = none :=
    Option.eq_none_iff_forall_ne_some.2 fun v hv => habsent (hget.1 ⟨v, hv⟩)
  have hvalue (hpresent : present) : e.get? index =
      some ((changes.foldl SparseArray.change (.ofList initial)).read index) := by
    rw [Elements.get?_of_contains (hcontains.2 hpresent)]
    exact congrArg some ((Elements.IsApart.ofList initial).read_run
      (Elements.read_ofList initial) changes index)
  have hskipped (written : Nat) (v u : Value) (habsent : ¬present) (hne : index ≠ written)
      (hu : (e.change (.set written v)).get? index = some u) : u = .undefined :=
    Elements.get?_set_of_absent (Elements.isApart_run initial changes) (hnone habsent) hne hu
  refine ⟨hget, hcontains, hvalue, hskipped, fun w host id key hh hkind hindex => ?_⟩
  have hkind' : (w.heap.object id).kind = .array e := hkind
  have hown (hpresent : present) : (w.heap.object id).getOwn? key = some (w.heap.get id key) := by
    obtain ⟨v, hv⟩ := Object.getOwn?_of_contains hkind' hindex (hcontains.2 hpresent)
    rw [Heap.get_of_getOwn? hv, hv]
  simp only [isMember_of_key]
  refine ⟨fun hpresent => ⟨?_, hown hpresent⟩, fun hvisible => ?_⟩
  · have hmember := Object.hasOwn_of_contains hkind' hindex (hcontains.2 hpresent)
    rw [hh.isGrounded.has_eq, hmember, Bool.true_or]
  -- without an explicit property of the key, the object answers for it as the elements do
  have hread := Object.getOwn?_of_index hkind' hindex hvisible
  refine ⟨fun hpresent => hread.symm.trans (hown hpresent), fun habsent => ?_⟩
  have hmissing : e.contains index = false := Bool.eq_false_iff.2 (mt hcontains.1 habsent)
  -- an index that is not present is looked for on the prototype
  obtain ⟨habove, htop⟩ := hh.isGrounded.lookup_of_not_own
    ((Object.hasOwn_of_index hkind' hindex hvisible).trans hmissing) (hread.trans (hnone habsent))
  refine ⟨fun prototype hprototype => ?_, fun hprototype => ?_⟩
  · obtain ⟨hhas, hvalue⟩ := habove prototype hprototype
    exact ⟨congrArg (EStateM.Result.ok · w) hhas, hvalue⟩
  · obtain ⟨hhas, hvalue⟩ := htop hprototype
    exact ⟨congrArg (EStateM.Result.ok · w) hhas, hvalue⟩

/-- A length has taken index 1 away and the write at 1500 is too far out to bring it back, so it is
read from the prototype. -/
theorem array_membership_inherited :
    let host : Host := ⟨fun _ _ => .answer .undefined, fun _ => false, fun _ => none, 0⟩
    let changes : List ArrayChange := [.set 1 (.str "own"), .setLength 1, .set 1500 (.str "far")]
    let above := (Object.ofKind .ordinary).define "1" ⟨.str "inherited", true⟩
    let array : Object :=
      ⟨.array (changes.foldl Elements.change (.ofList [.null])), {}, some ⟨0⟩⟩
    let h : Heap := ((Heap.empty.add above).2.add array).2
    h.Reachable ∧
      isMember host (.str "1500") (.object ⟨1⟩) ⟨h, []⟩ = .ok true ⟨h, []⟩ ∧
      h.get ⟨1⟩ "1" = .str "inherited" := by
  intro host changes above array h
  have hh : h.Reachable := by
    refine .add array (.add above .empty fun p hp => nomatch hp) fun p hp => ?_
    cases hp
    decide
  obtain ⟨-, hcontains, -, -, hlookup⟩ := array_membership [.null] changes 1500
  obtain ⟨hmember, -⟩ := hlookup ⟨h, []⟩ host ⟨1⟩ "1500" hh rfl (by cbv)
  obtain ⟨-, hcontains', -, -, hlookup'⟩ := array_membership [.null] changes 1
  obtain ⟨-, hvisible⟩ := hlookup' ⟨h, []⟩ host ⟨1⟩ "1" hh rfl (by cbv)
  have hfar := hcontains.1 (by decide)
  have hcut := mt hcontains'.2 (by decide)
  refine ⟨hh, (hmember hfar).1, ?_⟩
  exact (((hvisible rfl).2 hcut).1 ⟨0⟩ rfl).2.trans (by cbv)

/-- A write two past the end of the front makes the slot before it present, though it was neither a
value of the list nor written. The same write farther out leaves the slot a hole. -/
theorem array_membership_gap_filled :
    let near := [ArrayChange.set 3 (.str "near")].foldl Elements.change (.ofList [.null])
    let far := [ArrayChange.set 3000 (.str "far")].foldl Elements.change (.ofList [.null])
    (near.get? 2 = some .undefined ∧ near.contains 2 = true) ∧
      (far.get? 2 = none ∧ far.contains 2 = false) ∧
      ¬(2 < [Value.null].length ∨ (ArrayChange.set 3 (.str "near")).written? = some 2) :=
  ⟨⟨by cbv, by cbv⟩, ⟨by cbv, by cbv⟩, by simp [ArrayChange.written?]⟩

end ScriptOps
