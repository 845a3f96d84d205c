/-!
# Tables

A finite map as a list of entries with distinct keys, in the order in which the keys were first
inserted. Lookup finds the first entry of a key.
-/

namespace ScriptOps

/-- A finite map from keys to values. -/
structure Table (κ : Type) (α : Type) where
  /-- The entries, in order. -/
  entries : List (κ × α)

namespace Table

variable {κ : Type} {α : Type} [DecidableEq κ]

/-- The table without entries. -/
def empty : Table κ α := ⟨[]⟩

instance : EmptyCollection (Table κ α) := ⟨empty⟩

instance : Inhabited (Table κ α) := ⟨empty⟩

/-- The number of entries. -/
def size (t : Table κ α) : Nat :=
  t.entries.length

/-- The keys, in order. -/
def keys (t : Table κ α) : List κ :=
  t.entries.map (·.1)

/-- The value of a key. -/
def get? (t : Table κ α) (key : κ) : Option α :=
  t.entries.lookup key

/-- Whether a key has a value. -/
def contains (t : Table κ α) (key : κ) : Bool :=
  (t.get? key).isSome

/-- Puts a value in the first entry of a key, or in a new entry at the end. -/
def insertEntry (key : κ) (value : α) : List (κ × α) → List (κ × α)
  | [] => [(key, value)]
  | entry :: rest =>
    if entry.1 = key then (key, value) :: rest else entry :: insertEntry key value rest

/-- Gives a key a value. -/
def insert (t : Table κ α) (key : κ) (value : α) : Table κ α :=
  ⟨insertEntry key value t.entries⟩

/-- The entries whose keys pass a test. -/
def filterKeys (t : Table κ α) (keep : κ → Bool) : Table κ α :=
  ⟨t.entries.filter fun entry => keep entry.1⟩

/-! ### Reading after writing -/

/-- A written entry is found. -/
theorem lookup_insertEntry_self (key : κ) (value : α) (entries : List (κ × α)) :
    (insertEntry key value entries).lookup key = some value := by
  induction entries with
  | nil => simp [insertEntry]
  | cons entry rest ih =>
    obtain ⟨k, v⟩ := entry
    by_cases h : k = key
    · simp [insertEntry, h]
    · have hne : (key == k) = false := by simpa using fun he => h he.symm
      simp [insertEntry, h, List.lookup_cons, hne, ih]

/-- Writing an entry leaves the lookup of other keys alone. -/
theorem lookup_insertEntry_of_ne {key other : κ} (h : other ≠ key) (value : α)
    (entries : List (κ × α)) :
    (insertEntry key value entries).lookup other = entries.lookup other := by
  have hne : (other == key) = false := by simpa using h
  induction entries with
  | nil => simp [insertEntry, List.lookup_cons, hne]
  | cons entry rest ih =>
    obtain ⟨k, v⟩ := entry
    by_cases he : k = key
    · subst he
      simp [insertEntry, List.lookup_cons, hne]
    · simp [insertEntry, he, List.lookup_cons, ih]

/-- A key has the value that was put last. -/
@[simp] theorem get?_insert_self (t : Table κ α) (key : κ) (value : α) :
    (t.insert key value).get? key = some value :=
  lookup_insertEntry_self key value t.entries

/-- Putting a value leaves the other keys alone. -/
theorem get?_insert_of_ne (t : Table κ α) {key other : κ} (h : other ≠ key) (value : α) :
    (t.insert key value).get? other = t.get? other :=
  lookup_insertEntry_of_ne h value t.entries

/-- The two cases of reading after writing. -/
theorem get?_insert (t : Table κ α) (key other : κ) (value : α) :
    (t.insert key value).get? other = if other = key then some value else t.get? other := by
  split
  · next h => rw [h, get?_insert_self]
  · next h => exact get?_insert_of_ne t h value

/-- Dropping keys hides exactly these. -/
theorem get?_filterKeys (t : Table κ α) (keep : κ → Bool) (key : κ) :
    (t.filterKeys keep).get? key = if keep key then t.get? key else none := by
  obtain ⟨entries⟩ := t
  simp only [get?, filterKeys]
  induction entries with
  | nil => simp
  | cons entry rest ih =>
    obtain ⟨k, v⟩ := entry
    by_cases he : key = k
    · subst he
      by_cases hk : keep key
      · simp [hk]
      · simp only [hk, Bool.false_eq_true, if_false] at ih ⊢
        simpa [hk] using ih
    · have hne : (key == k) = false := by simpa using he
      by_cases hk : keep k <;> simp [hk, List.lookup_cons, hne, ih]

/-- The table without entries has no values. -/
@[simp] theorem get?_empty (key : κ) : (∅ : Table κ α).get? key = none := rfl

/-! ### Keys -/

/-- The keys are those that have a value. -/
theorem mem_keys_iff (t : Table κ α) (key : κ) :
    key ∈ t.keys ↔ ∃ value, t.get? key = some value := by
  have hnone : t.get? key = none ↔ key ∉ t.keys := by
    rw [get?, List.lookup_eq_none_iff]
    simp only [keys, List.mem_map, not_exists, not_and, bne_iff_ne]
    exact ⟨fun h entry hentry he => h entry hentry he.symm,
      fun h entry hentry he => h entry hentry he.symm⟩
  rw [← Option.isSome_iff_exists, ← Option.ne_none_iff_isSome, ne_eq, hnone, Decidable.not_not]

/-- The keys after an insertion are the old ones and the inserted one. -/
theorem mem_keys_insert (t : Table κ α) (key other : κ) (value : α) :
    other ∈ (t.insert key value).keys ↔ other = key ∨ other ∈ t.keys := by
  rw [mem_keys_iff, mem_keys_iff, get?_insert]
  split
  · next h => exact ⟨fun _ => .inl h, fun _ => ⟨value, rfl⟩⟩
  · next h => exact ⟨.inr, fun hor => hor.resolve_left h⟩

/-- A filter keeps the keys that pass. -/
theorem mem_keys_filterKeys (t : Table κ α) (keep : κ → Bool) (key : κ) :
    key ∈ (t.filterKeys keep).keys ↔ key ∈ t.keys ∧ keep key := by
  rw [mem_keys_iff, mem_keys_iff, get?_filterKeys]
  split
  · next h => simp [h]
  · next h => simp [h]

/-- A new entry has a key of its own. -/
theorem nodup_keys_insert {t : Table κ α} (ht : t.keys.Nodup) (key : κ) (value : α) :
    (t.insert key value).keys.Nodup := by
  obtain ⟨entries⟩ := t
  induction entries with
  | nil => simp [keys, insert, insertEntry]
  | cons entry rest ih =>
    obtain ⟨hfirst, hrest⟩ := List.nodup_cons.1 ht
    by_cases h : entry.1 = key
    · subst h
      simpa [keys, insert, insertEntry] using ht
    · have hkeys : (insert ⟨entry :: rest⟩ key value).keys =
          entry.1 :: (insert ⟨rest⟩ key value).keys := by
        simp [keys, insert, insertEntry, h]
      rw [hkeys, List.nodup_cons, mem_keys_insert]
      exact ⟨fun hor => hor.elim h hfirst, ih hrest⟩

omit [DecidableEq κ] in
/-- A filter makes no key occur twice. -/
theorem nodup_keys_filterKeys {t : Table κ α} (ht : t.keys.Nodup) (keep : κ → Bool) :
    (t.filterKeys keep).keys.Nodup :=
  ht.sublist (List.filter_sublist.map _)

/-! ### Entries -/

/-- What a key has is in an entry. -/
theorem mem_entries_of_get? {t : Table κ α} {key : κ} {value : α} (h : t.get? key = some value) :
    (key, value) ∈ t.entries := by
  obtain ⟨before, after, hentries, -⟩ := List.lookup_eq_some_iff.1 h
  rw [hentries]
  exact List.mem_append_right before List.mem_cons_self

/-- Putting a value makes one entry, and leaves the others. -/
theorem mem_entries_insert {t : Table κ α} {key : κ} {value : α} {entry : κ × α}
    (h : entry ∈ (t.insert key value).entries) : entry = (key, value) ∨ entry ∈ t.entries := by
  obtain ⟨entries⟩ := t
  simp only [insert] at h ⊢
  induction entries with
  | nil => exact .inl (List.mem_singleton.1 h)
  | cons first rest ih =>
    rw [insertEntry] at h
    split at h
    · rcases List.mem_cons.1 h with heq | hrest
      · exact .inl heq
      · exact .inr (List.mem_cons_of_mem _ hrest)
    · rcases List.mem_cons.1 h with heq | hrest
      · exact .inr (heq ▸ List.mem_cons_self)
      · exact (ih hrest).imp_right (List.mem_cons_of_mem _)

/-! ### The number of entries -/

/-- Putting a value for a key without one adds an entry. -/
theorem size_insert_of_get?_eq_none (t : Table κ α) {key : κ} (h : t.get? key = none) (value : α) :
    (t.insert key value).size = t.size + 1 := by
  obtain ⟨entries⟩ := t
  simp only [get?, size, insert] at h ⊢
  induction entries with
  | nil => rfl
  | cons entry rest ih =>
    have hne : entry.1 ≠ key := fun he => by simp [he] at h
    have hrest : rest.lookup key = none := by
      rwa [List.lookup_cons, beq_false_of_ne (Ne.symm hne)] at h
    simp [insertEntry, hne, ih hrest]

end Table

end ScriptOps
