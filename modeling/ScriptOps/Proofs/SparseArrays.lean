import ScriptOps.Elements
import ScriptOps.Text.Index

/-!
# Two stores, one sparse array

A sparse array is a length and a finite map from indices to values. The elements of an array keep
their values in two stores, and a write may move many of them from the tail to the front; but what
the indices read as, and the list of all values, are those of a sparse array that took the same
writes and lengths. `Elements.Refines` ties the two together. Which of the indices without a value
are holes is not part of it, because the slots between the front and a write become undefined.
-/

namespace ScriptOps

/-- A length, and the values of some indices. -/
structure SparseArray where
  /-- The length. -/
  length : Nat
  /-- The values by their indices. -/
  values : Table Nat Value

namespace SparseArray

/-- The values of a list, at the indices from `start` on. -/
def entriesFrom (start : Nat) : List Value → List (Nat × Value)
  | [] => []
  | v :: rest => (start, v) :: entriesFrom (start + 1) rest

/-- The sparse array of a list. -/
def ofList (values : List Value) : SparseArray :=
  ⟨values.length, ⟨entriesFrom 0 values⟩⟩

/-- What an index reads as. An index without a value is undefined. -/
def read (a : SparseArray) (index : Nat) : Value :=
  (a.values.get? index).getD .undefined

/-- Writes a value, and extends the length past its index. -/
def set (a : SparseArray) (index : Nat) (v : Value) : SparseArray :=
  ⟨max a.length (index + 1), a.values.insert index v⟩

/-- Sets the length, and drops every value at or past it. -/
def setLength (a : SparseArray) (length : Nat) : SparseArray :=
  ⟨length, a.values.filterKeys (· < length)⟩

/-- The entries of a list of values, looked up by index. -/
theorem lookup_entriesFrom (start : Nat) (values : List Value) (index : Nat) :
    (entriesFrom start values).lookup index =
      if start ≤ index then values[index - start]? else none := by
  induction values generalizing start with
  | nil => simp [entriesFrom]
  | cons v rest ih =>
    rw [entriesFrom, List.lookup_cons, ih]
    rcases Nat.lt_trichotomy index start with hlt | rfl | hgt
    · have hne : (index == start) = false := beq_false_of_ne (by omega)
      rw [hne, if_neg (by omega), if_neg (by omega)]
    · simp
    · have hne : (index == start) = false := beq_false_of_ne (by omega)
      obtain ⟨i, hi⟩ : ∃ i, index - start = i + 1 := ⟨index - start - 1, by omega⟩
      have hi' : index - (start + 1) = i := by omega
      rw [hne, if_pos (by omega), if_pos (by omega), hi, hi', List.getElem?_cons_succ]

/-- An array made from values reads as they do, and as undefined beyond them. -/
theorem read_ofList (values : List Value) (index : Nat) :
    (ofList values).read index = values[index]?.getD .undefined := by
  rw [read, ofList, Table.get?, lookup_entriesFrom, if_pos (Nat.zero_le index), Nat.sub_zero]

/-- A write is read back at its index, and leaves the others. -/
theorem read_set (a : SparseArray) (index other : Nat) (v : Value) :
    (a.set index v).read other = if other = index then v else a.read other := by
  rw [read, set, Table.get?_insert]
  split <;> rfl

/-- A new length hides what is beyond it, and leaves what is below. -/
theorem read_setLength (a : SparseArray) (length index : Nat) :
    (a.setLength length).read index = if index < length then a.read index else .undefined := by
  rw [read, setLength, Table.get?_filterKeys]
  by_cases h : index < length <;> simp [h, read]

end SparseArray

/-! ### Writes and lengths -/

/-- A change to the elements of an array. -/
inductive ArrayChange where
  | set (index : Nat) (v : Value)
  | setLength (length : Nat)

namespace ArrayChange

/-- Indices and lengths are within the limits. -/
def IsValid : ArrayChange → Prop
  | set index _ => index ≤ maxArrayIndex
  | setLength length => length ≤ maxArrayLength

/-- The index that a change gives a value. -/
def written? : ArrayChange → Option Nat
  | set index _ => some index
  | setLength _ => none

end ArrayChange

/-- The sparse array after a change. -/
def SparseArray.change (a : SparseArray) : ArrayChange → SparseArray
  | .set index v => a.set index v
  | .setLength length => a.setLength length

namespace Elements

/-- The elements after a change. -/
def change (e : Elements) : ArrayChange → Elements
  | .set index v => e.set index v
  | .setLength length => e.setLength length

/-- The front and the tail are in order, and together they are the sparse array. -/
structure Refines (e : Elements) (a : SparseArray) : Prop where
  wellFormed : e.IsWellFormed
  length_eq : e.length = a.length
  length_le : e.length ≤ maxArrayLength
  read_eq : ∀ index, e.read index = a.read index

variable {e : Elements} {a : SparseArray}

/-! ### What the indices read as -/

/-- A change keeps the front and the tail apart. -/
theorem IsApart.change (he : e.IsApart) (c : ArrayChange) : (e.change c).IsApart := by
  cases c with
  | set index v => exact he.set index v
  | setLength length => exact he.setLength length

/-- After a change the indices read as they do in the sparse array after the same change. -/
theorem IsApart.read_change (he : e.IsApart) (hread : ∀ index, e.read index = a.read index)
    (c : ArrayChange) (index : Nat) : (e.change c).read index = (a.change c).read index := by
  cases c with
  | set written v =>
    change (e.set written v).read index = (a.set written v).read index
    rw [read_set he, SparseArray.read_set, hread]
  | setLength length =>
    change (e.setLength length).read index = (a.setLength length).read index
    rw [read_setLength, SparseArray.read_setLength, hread]

/-- So they do after any changes, whatever the limits. -/
theorem IsApart.read_run (he : e.IsApart) (hread : ∀ index, e.read index = a.read index)
    (changes : List ArrayChange) (index : Nat) :
    (changes.foldl Elements.change e).read index =
      (changes.foldl SparseArray.change a).read index := by
  induction changes generalizing e a with
  | nil => exact hread index
  | cons c rest ih => exact ih (he.change c) (he.read_change hread c)

/-- The elements of a list read as the sparse array of the list. -/
theorem read_ofList (values : List Value) (index : Nat) :
    (ofList values).read index = (SparseArray.ofList values).read index := by
  have hget : (ofList values).get? index = values[index]? := by
    simp [ofList, get?]
  rw [SparseArray.read_ofList, read, hget]

namespace Refines

/-- Elements made from values refine the array made from them. -/
theorem ofList {values : List Value} (h : values.length ≤ maxArrayLength) :
    (Elements.ofList values).Refines (.ofList values) where
  wellFormed := .ofList h
  length_eq := Nat.min_eq_left h
  length_le := Nat.min_le_right _ _
  read_eq := read_ofList values

/-- A valid change keeps the refinement, step by step. -/
theorem change (h : e.Refines a) {c : ArrayChange} (hc : c.IsValid) :
    (e.change c).Refines (a.change c) := by
  obtain ⟨he, hlength, hle, hread⟩ := h
  cases c with
  | set index v =>
    refine ⟨he.set index v, ?_, ?_, he.read_change hread (.set index v)⟩
    · change max e.length (index + 1) = max a.length (index + 1)
      rw [hlength]
    · have hindex : index + 1 ≤ maxArrayLength := Nat.succ_le_succ hc
      exact Nat.max_le.2 ⟨hle, hindex⟩
  | setLength length =>
    exact ⟨he.setLength length, rfl, hc, he.read_change hread (.setLength length)⟩

/-- The changes of a run are followed one by one. -/
theorem run (h : e.Refines a) {changes : List ArrayChange} (hchanges : ∀ c ∈ changes, c.IsValid) :
    (changes.foldl Elements.change e).Refines (changes.foldl SparseArray.change a) := by
  induction changes generalizing e a with
  | nil => exact h
  | cons c rest ih =>
    have hrest : ∀ c ∈ rest, c.IsValid := fun c hmem => hchanges c (List.mem_cons_of_mem _ hmem)
    exact ih (h.change (hchanges c List.mem_cons_self)) hrest

end Refines

/-- A change makes an index defined only by a write. -/
theorem read_change_of_undefined (he : e.IsApart) {index : Nat} (h : e.read index = .undefined)
    {c : ArrayChange} (hc : c.written? ≠ some index) : (e.change c).read index = .undefined := by
  cases c with
  | set written v =>
    have hne : index ≠ written := fun heq => hc (congrArg some heq.symm)
    rw [change, read_set he, if_neg hne, h]
  | setLength length =>
    rw [change, read_setLength]
    split
    · exact h
    · rfl

/-- So an undefined index stays undefined until it is written. -/
theorem read_run_of_undefined (he : e.IsApart) {index : Nat} (h : e.read index = .undefined)
    {changes : List ArrayChange} (hchanges : ∀ c ∈ changes, c.written? ≠ some index) :
    (changes.foldl Elements.change e).read index = .undefined := by
  induction changes generalizing e with
  | nil => exact h
  | cons c rest ih =>
    have hnow := read_change_of_undefined he h (hchanges c List.mem_cons_self)
    exact ih (he.change c) hnow fun c hmem => hchanges c (List.mem_cons_of_mem _ hmem)

/-- A write adds a bounded number of slots to the front, and a length adds none. -/
theorem size_dense_change_le (e : Elements) (c : ArrayChange) :
    (e.change c).dense.size ≤ e.dense.size + maxDenseGap := by
  cases c with
  | set index v => exact e.size_dense_set_le index v
  | setLength length =>
    simp only [change, setLength, Array.size_extract]
    omega

end Elements

/-- The elements of an array refine a sparse array. After any writes and lengths within the limits,
the front is not longer than the array and every tail entry lies between the two; the length, what
the indices read as, and the list of all values are those of the sparse array; an index is present
exactly when it has an element. The next change adds at most 1024 slots to the front, and what a
shorter length drops is undefined until it is written again. -/
theorem elements_refine_sparse_array {initial : List Value}
    (hinitial : initial.length ≤ maxArrayLength) {changes : List ArrayChange}
    (hchanges : ∀ c ∈ changes, c.IsValid) :
    let e := changes.foldl Elements.change (.ofList initial)
    let a := changes.foldl SparseArray.change (.ofList initial)
    (e.dense.size ≤ e.length ∧ ∀ key ∈ e.sparse.keys, e.dense.size ≤ key ∧ key < e.length) ∧
    (e.length = a.length ∧ e.length ≤ maxArrayLength) ∧
    (∀ index, (e.get? index).getD .undefined = a.read index) ∧
    e.toList? = some ((List.range a.length).map a.read) ∧
    (∀ index, e.contains index ↔ ∃ v, e.get? index = some v) ∧
    (∀ c, (e.change c).dense.size ≤ e.dense.size + 1024) ∧
    ∀ length index, length ≤ index → ∀ later : List ArrayChange,
      (∀ c ∈ later, c.written? ≠ some index) →
        (later.foldl Elements.change (e.setLength length)).read index = .undefined := by
  intro e a
  have hrefines : e.Refines a := (Elements.Refines.ofList hinitial).run hchanges
  obtain ⟨he, hlength, hle, hread⟩ := hrefines
  have hbetween (key : Nat) (hkey : key ∈ e.sparse.keys) : e.dense.size ≤ key ∧ key < e.length :=
    ⟨he.size_le_of_mem key hkey, he.lt_length key hkey⟩
  refine ⟨⟨he.size_le, hbetween⟩, ⟨hlength, hle⟩, hread, ?_, fun index => ?_,
    e.size_dense_change_le, ?_⟩
  · rw [he.toList?_eq, hlength]
    exact congrArg some (List.map_congr_left fun index _ => hread index)
  · rw [e.contains_eq_isSome, Option.isSome_iff_exists]
  · intro length index hindex later hlater
    -- what a new length drops stays undefined until it is written again
    have hdropped : (e.setLength length).read index = .undefined := by
      rw [e.read_setLength, if_neg (Nat.not_lt_of_le hindex)]
    exact Elements.read_run_of_undefined (he.toIsApart.setLength length) hdropped hlater

/-- Index 1025 is too far for the front, is taken over when the front grows to 1030, and is gone for
good when the length passes by it. -/
theorem elements_refine_sparse_array_absorbed :
    let changes : List ArrayChange :=
      [.set 1025 (.str "far"), .set 1020 (.str "near"), .set 1030 (.str "past")]
    let e := changes.foldl Elements.change (.ofList [.null])
    e.read 1025 = .str "far" ∧
      ((e.setLength 1000).change (.setLength 2000)).read 1025 = .undefined := by
  intro changes e
  have hchanges : ∀ c ∈ changes, c.IsValid := by
    simp [changes, ArrayChange.IsValid, maxArrayIndex]
  obtain ⟨_, _, hread, _, _, _, hdropped⟩ :=
    elements_refine_sparse_array (show [Value.null].length ≤ maxArrayLength by decide) hchanges
  refine ⟨hread 1025, hdropped 1000 1025 (by decide) [.setLength 2000] ?_⟩
  simp [ArrayChange.written?]

end ScriptOps
