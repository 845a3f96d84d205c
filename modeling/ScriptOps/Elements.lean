import ScriptOps.Table
import ScriptOps.Value

/-!
# Array elements

The elements of an array are a dense front and a sparse tail. A write lands in the front when it
lies within it or a little past its end, and in the tail otherwise; the front grows over the tail
entries that it reaches. Slots that the growth skips are present and undefined, while an index that
no store holds is a hole.
-/

namespace ScriptOps

/-- The elements of an array. -/
structure Elements where
  /-- The values of the first indices. -/
  dense : Array Value
  /-- Further values by their indices. -/
  sparse : Table Nat Value
  /-- The length of the array. -/
  length : Nat
deriving Inhabited

/-- The longest length of an array, `2 ^ 32 - 1`. -/
def maxArrayLength : Nat := 0xffffffff

namespace Elements

/-- The most slots that one write adds to the dense front. -/
def maxDenseGap : Nat := 1024

/-- The elements of a list. -/
def ofList (values : List Value) : Elements :=
  ⟨values.toArray, {}, min values.length maxArrayLength⟩

/-- The element at an index, and `none` for a hole. -/
def get? (e : Elements) (index : Nat) : Option Value :=
  e.dense[index]? <|> e.sparse.get? index

/-- Whether an index has an element. -/
def contains (e : Elements) (index : Nat) : Bool :=
  index < e.dense.size || e.sparse.contains index

/-- Whether the array has length zero. -/
def isEmpty (e : Elements) : Bool :=
  e.length == 0

/-- The first `size` values of a list, filled up with undefined. -/
def resize (values : Array Value) (size : Nat) : Array Value :=
  if size ≤ values.size then values.extract 0 size
  else values ++ Array.replicate (size - values.size) .undefined

/-- Writes entries over a list of values, one after the other. -/
def overlay (values : Array Value) : List (Nat × Value) → Array Value
  | [] => values
  | (index, v) :: rest => overlay (values.setIfInBounds index v) rest

/-- Extends the dense front to `size` slots, and moves the tail entries in its way into it. -/
def growDense (e : Elements) (size : Nat) : Elements :=
  { e with
    dense := overlay (resize e.dense size) (e.sparse.filterKeys (· < size)).entries
    sparse := e.sparse.filterKeys (size ≤ ·) }

/-- Stores a value, without a regard to the length. -/
def store (e : Elements) (index : Nat) (v : Value) : Elements :=
  if index < e.dense.size then { e with dense := e.dense.setIfInBounds index v }
  else if index - e.dense.size < maxDenseGap then
    let grown := e.growDense (index + 1)
    { grown with dense := grown.dense.setIfInBounds index v }
  else { e with sparse := e.sparse.insert index v }

/-- Writes a value, and extends the length past its index. -/
def set (e : Elements) (index : Nat) (v : Value) : Elements :=
  let length := max e.length (index + 1)
  { e.store index v with length }

/-- Sets the length, and drops every element at or past it. -/
def setLength (e : Elements) (length : Nat) : Elements :=
  { dense := e.dense.extract 0 length
    sparse := e.sparse.filterKeys (· < length)
    length }

/-- The array length that a value denotes. -/
def lengthOf? (v : Value) : Option Nat :=
  match v.float?.bind Binary.ofFloat? with
  | some b =>
    if b.IsWhole ∧ 0 ≤ b.truncate ∧ b.truncate ≤ maxArrayLength then some b.truncate.toNat else none
  | none => none

/-- What an index reads as: holes and indices past the end are undefined. -/
def read (e : Elements) (index : Nat) : Value :=
  (e.get? index).getD .undefined

/-- The values of all indices below the length: the dense front, cut or filled up to the length,
with the tail written over it. There is no such list if a tail entry lies at or past the length. -/
def toList? (e : Elements) : Option (List Value) :=
  if e.sparse.keys.all (· < e.length) then
    some (overlay (resize e.dense e.length) e.sparse.entries).toList
  else none

/-! ### Front and tail -/

/-- Every tail entry lies past the dense front, and no two have one index. -/
structure IsApart (e : Elements) : Prop where
  distinct : e.sparse.keys.Nodup
  size_le_of_mem : ∀ key ∈ e.sparse.keys, e.dense.size ≤ key

/-- Front and tail are apart, and the length is past both. -/
structure IsWellFormed (e : Elements) : Prop extends e.IsApart where
  size_le : e.dense.size ≤ e.length
  lt_length : ∀ key ∈ e.sparse.keys, key < e.length

/-- A resized list has the given size. -/
theorem size_resize (values : Array Value) (size : Nat) : (resize values size).size = size := by
  unfold resize
  split
  · rw [Array.size_extract]
    omega
  · rw [Array.size_append, Array.size_replicate]
    omega

/-- Resizing keeps the values within the size, and fills up with undefined. -/
theorem getElem?_resize (values : Array Value) (size i : Nat) :
    (resize values size)[i]? = if i < size then some (values[i]?.getD .undefined) else none := by
  by_cases hi : i < size
  · unfold resize
    split
    · have hmin : i < min size values.size := by omega
      have hv : i < values.size := by omega
      simp [hmin, hv]
    · by_cases hv : i < values.size
      · simp [Array.getElem?_append_left, hv]
      · have hle : values.size ≤ i := by omega
        have hi' : i - values.size < size - values.size := by omega
        simp [Array.getElem?_append_right, hle, hi']
  · rw [if_neg hi]
    exact Array.getElem?_eq_none (by rw [size_resize]; omega)

/-- Writing entries over a list keeps its size. -/
theorem size_overlay (values : Array Value) (entries : List (Nat × Value)) :
    (overlay values entries).size = values.size := by
  induction entries generalizing values with
  | nil => rfl
  | cons entry rest ih => rw [overlay, ih, Array.size_setIfInBounds]

/-- Entries of different indices do not write over each other. -/
theorem getElem?_overlay (values : Array Value) {entries : List (Nat × Value)}
    (h : (entries.map (·.1)).Nodup) (i : Nat) :
    (overlay values entries)[i]? = values[i]?.map fun v => (entries.lookup i).getD v := by
  induction entries generalizing values with
  | nil => simp [overlay]
  | cons entry rest ih =>
    obtain ⟨index, v⟩ := entry
    obtain ⟨hfirst, hrest⟩ := List.nodup_cons.1 h
    rw [overlay, ih _ hrest, List.lookup_cons, Array.getElem?_setIfInBounds]
    by_cases hi : index = i
    · subst hi
      have hlater : rest.lookup index = none :=
        List.lookup_eq_none_iff.2 fun entry hentry => bne_iff_ne.2 fun he =>
          hfirst (List.mem_map.2 ⟨entry, hentry, he.symm⟩)
      by_cases hsize : index < values.size <;> simp [hlater, hsize]
    · have hne : (i == index) = false := beq_false_of_ne (Ne.symm hi)
      simp [hi, hne]

namespace IsApart

variable {e : Elements}

/-- An index within the front is in no tail entry. -/
theorem get?_sparse (he : e.IsApart) {index : Nat} (h : index < e.dense.size) :
    e.sparse.get? index = none := by
  cases hget : e.sparse.get? index with
  | none => rfl
  | some v =>
    have hkey := (e.sparse.mem_keys_iff index).2 ⟨v, hget⟩
    exact absurd (he.size_le_of_mem index hkey) (Nat.not_le_of_lt h)

/-- What the front and the tail together hold at an index of the resized front. -/
theorem read_eq (he : e.IsApart) (index : Nat) :
    e.read index = (e.sparse.get? index).getD (e.dense[index]?.getD .undefined) := by
  by_cases h : index < e.dense.size
  · simp [read, get?, h, he.get?_sparse h]
  · simp [read, get?, h]

end IsApart

/-! ### Reading after writing -/

/-- An index is present exactly when it has an element. -/
theorem contains_eq_isSome (e : Elements) (index : Nat) :
    e.contains index = (e.get? index).isSome := by
  by_cases h : index < e.dense.size
  · simp [contains, get?, h]
  · simp [contains, get?, h, Table.contains]

/-- The grown front has the given size. -/
theorem size_growDense (e : Elements) (size : Nat) : (e.growDense size).dense.size = size := by
  rw [growDense, size_overlay, size_resize]

/-- Growing the front makes every slot below the size present with what it read as, and leaves the
tail past it. -/
theorem get?_growDense {e : Elements} (he : e.IsApart) (size index : Nat) :
    (e.growDense size).get? index =
      if index < size then some (e.read index) else e.sparse.get? index := by
  have hdense : (e.growDense size).dense[index]? = (resize e.dense size)[index]?.map fun v =>
      ((e.sparse.filterKeys (· < size)).get? index).getD v :=
    getElem?_overlay _ (Table.nodup_keys_filterKeys he.distinct _) index
  rw [getElem?_resize, Table.get?_filterKeys] at hdense
  rw [get?, hdense]
  by_cases hi : index < size
  · simp [hi, he.read_eq index]
  · have hle : size ≤ index := by omega
    simp [hi, growDense, Table.get?_filterKeys, hle]

/-- A write is read back. -/
theorem get?_set_self (e : Elements) (index : Nat) (v : Value) :
    (e.set index v).get? index = some v := by
  unfold set store
  split
  · next h => simp [get?, h]
  · next h =>
    have hle : e.dense.size ≤ index := by omega
    split
    · simp [get?, size_growDense]
    · simp [get?, hle]

/-- What an index holds after a write. A write a little past the dense front fills the slots
between, and the other indices keep what they had. -/
theorem get?_set {e : Elements} (he : e.IsApart) (index other : Nat) (v : Value) :
    (e.set index v).get? other =
      if other = index then some v
      else if other < index ∧ e.dense.size ≤ other ∧ index - e.dense.size < maxDenseGap then
        some (e.read other)
      else e.get? other := by
  by_cases ho : other = index
  · rw [if_pos ho, ho, get?_set_self]
  rw [if_neg ho]
  unfold set store
  split
  · next h =>
    have hi : ¬(other < index ∧ e.dense.size ≤ other ∧ index - e.dense.size < maxDenseGap) := by
      omega
    simp [get?, hi, Array.getElem?_setIfInBounds_ne (Ne.symm ho)]
  · next h =>
    have hle : e.dense.size ≤ index := by omega
    split
    · next hgap =>
      -- the front grows over the gap, and takes what the tail held there
      have hgrown := get?_growDense he (index + 1) other
      simp only [get?, Array.getElem?_setIfInBounds_ne (Ne.symm ho)] at hgrown ⊢
      rw [hgrown]
      by_cases hlt : other < index
      · by_cases hd : e.dense.size ≤ other
        · simp [hlt, hd, hgap, Nat.lt_succ_of_lt hlt]
        · have hd' : other < e.dense.size := by omega
          simp [hd, read, get?, hd', Nat.lt_succ_of_lt hlt]
      · have hn : ¬other < index + 1 := by omega
        have hd : e.dense.size ≤ other := by omega
        simp [hlt, hn, hd]
    · next hgap => simp [get?, hgap, Table.get?_insert_of_ne _ ho]

/-- A write leaves alone what other indices read as. -/
theorem read_set {e : Elements} (he : e.IsApart) (index other : Nat) (v : Value) :
    (e.set index v).read other = if other = index then v else e.read other := by
  rw [read, get?_set he]
  split
  · rfl
  · split <;> rfl

/-- A new length cuts off what lies at or past it. -/
theorem get?_setLength (e : Elements) (length index : Nat) :
    (e.setLength length).get? index = if index < length then e.get? index else none := by
  by_cases h : index < length
  · by_cases hd : index < e.dense.size
    · have hm : index < min length e.dense.size := by omega
      simp [setLength, get?, h, hd, hm]
    · have hd' : e.dense.size ≤ index := by omega
      have hx : (e.dense.extract 0 length)[index]? = none :=
        Array.getElem?_eq_none (by simp only [Array.size_extract]; omega)
      have hy : e.dense[index]? = none := Array.getElem?_eq_none hd'
      simp [setLength, get?, h, hx, hy, Table.get?_filterKeys]
  · have hm : ¬index < min length e.dense.size := by omega
    simp [setLength, get?, h, hm, Table.get?_filterKeys]

/-- A shorter length makes the indices past it read as undefined. -/
theorem read_setLength (e : Elements) (length index : Nat) :
    (e.setLength length).read index = if index < length then e.read index else .undefined := by
  rw [read, get?_setLength]
  split <;> rfl

/-! ### What keeps front and tail apart -/

namespace IsApart

/-- A list begins without a tail. -/
theorem ofList (values : List Value) : (Elements.ofList values).IsApart where
  distinct := List.nodup_nil
  size_le_of_mem _ hkey := nomatch hkey

variable {e : Elements}

/-- The front takes over the tail entries that it grows over, and a write too far past it makes a
tail entry. -/
theorem set (he : e.IsApart) (index : Nat) (v : Value) : (e.set index v).IsApart := by
  obtain ⟨hdistinct, hpast⟩ := he
  unfold Elements.set store
  split
  · refine ⟨hdistinct, fun key hkey => ?_⟩
    rw [Array.size_setIfInBounds]
    exact hpast key hkey
  · next h =>
    split
    · refine ⟨Table.nodup_keys_filterKeys hdistinct _, fun key hkey => ?_⟩
      rw [Array.size_setIfInBounds, size_growDense]
      exact of_decide_eq_true ((Table.mem_keys_filterKeys _ _ key).1 hkey).2
    · refine ⟨Table.nodup_keys_insert hdistinct _ _, fun key hkey => ?_⟩
      rcases (Table.mem_keys_insert _ _ key v).1 hkey with rfl | hmem
      · exact Nat.le_of_not_lt h
      · exact hpast key hmem

/-- A new length takes entries away and adds none. -/
theorem setLength (he : e.IsApart) (length : Nat) : (e.setLength length).IsApart where
  distinct := Table.nodup_keys_filterKeys he.distinct _
  size_le_of_mem key hkey := by
    have hpast := he.size_le_of_mem key ((Table.mem_keys_filterKeys _ _ key).1 hkey).1
    simp only [Elements.setLength, Array.size_extract]
    omega

end IsApart

namespace IsWellFormed

/-- The elements of a list that is not too long are well-formed. -/
theorem ofList {values : List Value} (h : values.length ≤ maxArrayLength) :
    (Elements.ofList values).IsWellFormed where
  toIsApart := .ofList values
  size_le := Nat.le_min.2 ⟨Nat.le_refl _, h⟩
  lt_length _ hkey := nomatch hkey

variable {e : Elements}

/-- The length grows past the index of a write, and so past the front and the tail. -/
theorem set (he : e.IsWellFormed) (index : Nat) (v : Value) : (e.set index v).IsWellFormed := by
  refine ⟨he.toIsApart.set index v, ?_, ?_⟩
  · unfold Elements.set store
    split
    · rw [Array.size_setIfInBounds]
      exact Nat.le_trans he.size_le (Nat.le_max_left _ _)
    · split
      · rw [Array.size_setIfInBounds, size_growDense]
        exact Nat.le_max_right _ _
      · exact Nat.le_trans he.size_le (Nat.le_max_left _ _)
  · have hkept : ∀ key ∈ e.sparse.keys, key < max e.length (index + 1) := fun key hkey =>
      Nat.lt_of_lt_of_le (he.lt_length key hkey) (Nat.le_max_left _ _)
    unfold Elements.set store
    split
    · exact hkept
    · split
      · exact fun key hkey => hkept key ((Table.mem_keys_filterKeys _ _ key).1 hkey).1
      · intro key hkey
        rcases (Table.mem_keys_insert _ _ key v).1 hkey with rfl | hmem
        · exact Nat.le_max_right _ _
        · exact hkept key hmem

/-- A new length bounds what it leaves of the front and the tail. -/
theorem setLength (he : e.IsWellFormed) (length : Nat) : (e.setLength length).IsWellFormed where
  toIsApart := he.toIsApart.setLength length
  size_le := by
    simp only [Elements.setLength, Array.size_extract]
    omega
  lt_length key hkey := of_decide_eq_true ((Table.mem_keys_filterKeys _ _ key).1 hkey).2

/-- So the values are all there, and each tail entry has a place among them. -/
theorem toList?_eq (he : e.IsWellFormed) :
    e.toList? = some ((List.range e.length).map e.read) := by
  have hinside : e.sparse.keys.all (· < e.length) :=
    List.all_eq_true.2 fun key hkey => decide_eq_true (he.lt_length key hkey)
  rw [toList?, if_pos hinside]
  refine congrArg some (List.ext_getElem? fun i => ?_)
  have hread := he.read_eq i
  rw [Array.getElem?_toList, getElem?_overlay _ he.distinct, getElem?_resize, List.getElem?_map]
  by_cases hi : i < e.length
  · simpa [hi, Table.get?] using hread.symm
  · simp [hi]

end IsWellFormed

/-- One write adds a bounded number of slots to the dense front. -/
theorem size_dense_set_le (e : Elements) (index : Nat) (v : Value) :
    (e.set index v).dense.size ≤ e.dense.size + maxDenseGap := by
  unfold set store
  split
  · rw [Array.size_setIfInBounds]
    exact Nat.le_add_right _ _
  · split
    · rw [Array.size_setIfInBounds, size_growDense]
      omega
    · exact Nat.le_add_right _ _

/-! ### What is stored -/

/-- Whether a value is in the dense front or in the sparse tail. -/
def Stores (e : Elements) (v : Value) : Prop :=
  v ∈ e.dense ∨ ∃ index, (index, v) ∈ e.sparse.entries

/-- What an index holds is stored somewhere. -/
theorem stores_of_get? {e : Elements} {index : Nat} {v : Value} (h : e.get? index = some v) :
    e.Stores v := by
  unfold get? at h
  cases hdense : e.dense[index]? with
  | some w =>
    rw [hdense] at h
    exact .inl (Option.some.inj h ▸ Array.mem_of_getElem? hdense)
  | none =>
    rw [hdense] at h
    exact .inr ⟨index, Table.mem_entries_of_get? h⟩

/-- The elements of a list store its values and nothing else. -/
theorem stores_ofList {values : List Value} {v : Value} :
    (ofList values).Stores v ↔ v ∈ values := by
  simp [Stores, ofList, EmptyCollection.emptyCollection, Table.empty]

/-- Resizing adds undefined at most. -/
theorem mem_resize {values : Array Value} {size : Nat} {v : Value} (h : v ∈ resize values size) :
    v ∈ values ∨ v = .undefined := by
  unfold resize at h
  split at h
  · obtain ⟨i, hi, rfl⟩ := Array.mem_extract_iff_getElem.1 h
    exact .inl (Array.getElem_mem _)
  · exact (Array.mem_append.1 h).imp_right fun hv => (Array.mem_replicate.1 hv).2

/-- Every value of an overlaid list was there or comes from an entry. -/
theorem mem_overlay {values : Array Value} {entries : List (Nat × Value)} {v : Value}
    (h : v ∈ overlay values entries) : v ∈ values ∨ ∃ index, (index, v) ∈ entries := by
  induction entries generalizing values with
  | nil => exact .inl h
  | cons entry rest ih =>
    obtain ⟨index, w⟩ := entry
    rcases ih h with hset | ⟨other, hrest⟩
    · rcases Array.mem_or_eq_of_mem_setIfInBounds hset with hmem | rfl
      · exact .inl hmem
      · exact .inr ⟨index, List.mem_cons_self⟩
    · exact .inr ⟨other, List.mem_cons_of_mem _ hrest⟩

/-- Growth stores nothing new but undefined. -/
theorem Stores.of_growDense {e : Elements} {size : Nat} {v : Value}
    (h : (e.growDense size).Stores v) : e.Stores v ∨ v = .undefined := by
  rcases h with hdense | ⟨index, hsparse⟩
  · rcases mem_overlay hdense with hresize | ⟨index, hentry⟩
    · exact (mem_resize hresize).imp_left .inl
    · exact .inl (.inr ⟨index, (List.mem_filter.1 hentry).1⟩)
  · exact .inl (.inr ⟨index, (List.mem_filter.1 hsparse).1⟩)

/-- A write stores the value, and nothing else but undefined. -/
theorem Stores.of_set {e : Elements} {index : Nat} {v w : Value} (h : (e.set index v).Stores w) :
    w = v ∨ e.Stores w ∨ w = .undefined := by
  change (e.store index v).Stores w at h
  unfold store at h
  split at h
  · rcases h with hdense | hsparse
    · rcases Array.mem_or_eq_of_mem_setIfInBounds hdense with hmem | rfl
      · exact .inr (.inl (.inl hmem))
      · exact .inl rfl
    · exact .inr (.inl (.inr hsparse))
  · split at h
    · have hgrown (h : (e.growDense (index + 1)).Stores w) := h.of_growDense
      rcases h with hdense | hsparse
      · rcases Array.mem_or_eq_of_mem_setIfInBounds hdense with hmem | rfl
        · exact .inr (hgrown (.inl hmem))
        · exact .inl rfl
      · exact .inr (hgrown (.inr hsparse))
    · rcases h with hdense | ⟨other, hsparse⟩
      · exact .inr (.inl (.inl hdense))
      · rcases Table.mem_entries_insert hsparse with heq | hmem
        · exact .inl (Prod.mk.inj heq).2
        · exact .inr (.inl (.inr ⟨other, hmem⟩))

/-- A new length stores nothing new. -/
theorem Stores.of_setLength {e : Elements} {length : Nat} {v : Value}
    (h : (e.setLength length).Stores v) : e.Stores v := by
  rcases h with hdense | ⟨index, hsparse⟩
  · obtain ⟨i, hi, rfl⟩ := Array.mem_extract_iff_getElem.1 hdense
    exact .inl (Array.getElem_mem _)
  · exact .inr ⟨index, (List.mem_filter.1 hsparse).1⟩

end Elements

end ScriptOps
