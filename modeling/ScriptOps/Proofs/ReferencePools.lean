import ScriptOps.Reference
import Mathlib.Data.Finset.Card
import Mathlib.Data.Finset.Range
import Mathlib.Data.List.Nodup
import Mathlib.Logic.Function.Basic

/-!
# Pools of references

The pools that arise from the empty one by putting references in and giving slots back, also slots
that are empty already or that never were. In each of them the list of empty slots names every empty
slot once, so a reference is never put over another one.
-/

namespace ScriptOps.ReferencePool

/-- The pools that arise from the empty one. -/
inductive Reachable : ReferencePool → Prop where
  | empty : Reachable .empty
  | acquire {p : ReferencePool} (r : Reference) : Reachable p → Reachable (p.acquire r).2
  | release {p : ReferencePool} (id : RefId) : Reachable p → Reachable (p.release id).2

/-- The list of empty slots has each of them once, and no other slot. -/
structure Valid (p : ReferencePool) : Prop where
  nodup : p.free.Nodup
  mem_free : ∀ i, i ∈ p.free ↔ p.slots[i]? = some none

variable {p q : ReferencePool}

/-- A slot holds something only if it is no empty slot. -/
theorem get?_eq_some {id : RefId} {r : Reference} :
    p.get? id = some r ↔ p.slots[id.index]? = some (some r) := by
  simp [get?, Option.join_eq_some_iff]

namespace Valid

/-- The empty pool is valid. -/
theorem empty : Valid .empty where
  nodup := List.nodup_nil
  mem_free i := by simp [ReferencePool.empty]

/-- Acquiring a reference keeps the pool valid, for a slot from the free list as for a fresh one. -/
theorem acquire (h : p.Valid) (r : Reference) : (p.acquire r).2.Valid := by
  have hmem := h.mem_free
  have hnodup := h.nodup
  unfold ReferencePool.acquire
  cases hfree : p.free with
  | nil =>
    rw [hfree] at hmem
    refine ⟨List.nodup_nil, fun i => ?_⟩
    have hi := hmem i
    simp only [List.not_mem_nil, false_iff] at hi ⊢
    rw [Array.getElem?_push]
    split
    · simp
    · exact hi
  | cons slot rest =>
    rw [hfree] at hmem hnodup
    obtain ⟨hslot, hrest⟩ := List.nodup_cons.1 hnodup
    refine ⟨hrest, fun i => ?_⟩
    have hi := hmem i
    by_cases heq : slot = i
    · subst heq
      simp [hslot, Array.getElem?_setIfInBounds]
    · rw [Array.getElem?_setIfInBounds_ne heq, ← hi]
      simp [Ne.symm heq]

/-- Releasing a handle keeps the pool valid, for one that is not in use too. -/
theorem release (h : p.Valid) (id : RefId) : (p.release id).2.Valid := by
  unfold ReferencePool.release
  cases hget : p.get? id with
  | none => exact h
  | some r =>
    have hslot := get?_eq_some.1 hget
    have hfree : id.index ∉ p.free := by
      rw [h.mem_free, hslot]
      simp
    refine ⟨List.nodup_cons.2 ⟨hfree, h.nodup⟩, fun i => ?_⟩
    by_cases heq : id.index = i
    · subst heq
      have hlt := (Array.getElem?_eq_some_iff.1 hslot).1
      simp [hlt]
    · rw [Array.getElem?_setIfInBounds_ne heq, ← h.mem_free]
      simp [Ne.symm heq]

end Valid

/-- The invariant of the pool. -/
theorem Reachable.valid (h : p.Reachable) : p.Valid := by
  induction h with
  | empty => exact .empty
  | acquire r _ ih => exact ih.acquire r
  | release id _ ih => exact ih.release id

/-! ### Slots in use -/

/-- The slots that hold a reference. -/
def occupied (p : ReferencePool) : Finset Nat :=
  (Finset.range p.slots.size).filter fun i => (p.get? ⟨i⟩).isSome

/-- The occupied slots are those that hold a reference. -/
theorem mem_occupied {i : Nat} : i ∈ p.occupied ↔ (p.get? ⟨i⟩).isSome := by
  rw [occupied, Finset.mem_filter, Finset.mem_range, and_iff_right_iff_imp]
  intro h
  obtain ⟨r, hr⟩ := Option.isSome_iff_exists.1 h
  exact (Array.getElem?_eq_some_iff.1 (get?_eq_some.1 hr)).1

/-- The empty slots are those that hold nothing. -/
theorem Valid.toFinset_free (h : p.Valid) :
    p.free.toFinset = (Finset.range p.slots.size).filter fun i => ¬(p.get? ⟨i⟩).isSome := by
  ext i
  rw [List.mem_toFinset, h.mem_free, Finset.mem_filter, Finset.mem_range]
  constructor
  · intro hslot
    have hlt := (Array.getElem?_eq_some_iff.1 hslot).1
    exact ⟨hlt, by simp [get?, hslot]⟩
  · rintro ⟨hlt, hnone⟩
    have hslot : p.slots[i]? = some p.slots[i] := Array.getElem?_eq_getElem hlt
    have hempty : p.slots[i] = none := by simpa [get?, hslot] using hnone
    rw [hslot, hempty]

/-- The number of slots in use is the number of slots that hold a reference. -/
theorem Valid.inUse_eq_card (h : p.Valid) : p.inUse = p.occupied.card := by
  have hfree : p.free.toFinset.card = p.free.length := List.toFinset_card_of_nodup h.nodup
  have hsplit := Finset.card_filter_add_card_filter_not (s := Finset.range p.slots.size)
    fun i => (p.get? ⟨i⟩).isSome
  rw [h.toFinset_free] at hfree
  rw [hfree, Finset.card_range] at hsplit
  rw [inUse, occupied]
  omega

/-- Pools that hold the same have as many slots in use. -/
theorem Valid.inUse_congr (hp : p.Valid) (hq : q.Valid) (h : ∀ id, p.get? id = q.get? id) :
    p.inUse = q.inUse := by
  have hoccupied : p.occupied = q.occupied := by
    ext i
    rw [mem_occupied, mem_occupied, h]
  rw [hp.inUse_eq_card, hq.inUse_eq_card, hoccupied]

namespace Valid

/-- A reference is put into a slot that held nothing. -/
theorem get?_fresh (h : p.Valid) (r : Reference) : p.get? (p.acquire r).1 = none := by
  unfold ReferencePool.acquire get?
  cases hfree : p.free with
  | nil => simp
  | cons slot rest =>
    have hslot := (h.mem_free slot).1 (by simp [hfree])
    simp [hslot]

/-- The reference that was put in is found in its slot. -/
theorem get?_acquire_self (h : p.Valid) (r : Reference) :
    (p.acquire r).2.get? (p.acquire r).1 = some r := by
  unfold ReferencePool.acquire get?
  cases hfree : p.free with
  | nil => simp
  | cons slot rest =>
    have hslot := (h.mem_free slot).1 (by simp [hfree])
    have hlt := (Array.getElem?_eq_some_iff.1 hslot).1
    simp [hlt]

end Valid

/-- The other slots are left alone. -/
theorem get?_acquire_of_ne (p : ReferencePool) (r : Reference) {id : RefId}
    (hne : id ≠ (p.acquire r).1) : (p.acquire r).2.get? id = p.get? id := by
  obtain ⟨i⟩ := id
  unfold ReferencePool.acquire get? at *
  cases hfree : p.free with
  | nil =>
    rw [hfree] at hne
    have hi : i ≠ p.slots.size := fun heq => hne (congrArg RefId.mk heq)
    simp [Array.getElem?_push, hi]
  | cons slot rest =>
    rw [hfree] at hne
    have hi : slot ≠ i := fun heq => hne (congrArg RefId.mk heq.symm)
    simp [Array.getElem?_setIfInBounds_ne hi]

/-- The pool is valid, and its slots hold the given references and no others. -/
structure Holds (p : ReferencePool) (live : RefId → Option Reference) : Prop where
  valid : p.Valid
  get? : ∀ id, p.get? id = live id

namespace Holds

variable {live : RefId → Option Reference}

/-- A new reference joins those that are held. -/
theorem acquire (h : p.Holds live) (r : Reference) :
    (p.acquire r).2.Holds (Function.update live (p.acquire r).1 (some r)) := by
  refine ⟨h.valid.acquire r, fun id => ?_⟩
  by_cases hid : id = (p.acquire r).1
  · rw [hid, Function.update_self, h.valid.get?_acquire_self r]
  · rw [Function.update_of_ne hid, p.get?_acquire_of_ne r hid, h.get? id]

/-- Giving its slot back leaves the others. -/
theorem release {id : RefId} {r : Reference} (hfree : live id = none)
    (h : p.Holds (Function.update live id (some r))) : (p.release id).2.Holds live := by
  refine ⟨h.valid.release id, fun other => ?_⟩
  by_cases hother : other = id
  · rw [hother, p.get?_release, hfree]
  · rw [p.get?_release_of_ne hother, h.get? other, Function.update_of_ne hother]

end Holds

end ScriptOps.ReferencePool
