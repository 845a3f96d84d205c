import ScriptOps.Environment

/-!
# References

A reference is a resolved target of an assignment. While an assignment is in progress its reference
lies in a slot of a pool; slots that were given back are used again, the last one first.

A pool is taken to have room for every reference. An interpreter whose slots have numbers of 32 bits
stops at once when more than `2 ^ 32 - 1` references are in progress at a time; what is proved of
pools is about the runs that stay below that.
-/

namespace ScriptOps

/-- A resolved target. -/
inductive Reference where
  /-- A name in the scope that declares it. -/
  | binding (name : String) (scope : ScopeId)
  /-- A name that no scope declares. -/
  | unresolvable (name : String)
  /-- A property of a value, which need not be an object. -/
  | property (base : Value) (key : String)
deriving Inhabited

/-- Whether a reference is a name that no scope declares. -/
def Reference.isUnresolvable : Reference → Bool
  | unresolvable _ => true
  | _ => false

/-- The slot of a reference. -/
structure RefId where
  /-- The place of the slot. -/
  index : Nat
deriving DecidableEq, Inhabited

/-- Slots for references. -/
structure ReferencePool where
  /-- The slots. -/
  slots : Array (Option Reference)
  /-- The empty slots, the last given back first. -/
  free : List Nat
deriving Inhabited

namespace ReferencePool

/-- The pool without slots. -/
def empty : ReferencePool := ⟨#[], []⟩

/-- Puts a reference into an empty slot, or into a new one. There is always room for a new slot: the
limit of `2 ^ 32 - 1` references at a time is left out. -/
def acquire (p : ReferencePool) (r : Reference) : RefId × ReferencePool :=
  match p.free with
  | slot :: free => (⟨slot⟩, ⟨p.slots.setIfInBounds slot (some r), free⟩)
  | [] => (⟨p.slots.size⟩, ⟨p.slots.push (some r), []⟩)

/-- The reference in a slot. -/
def get? (p : ReferencePool) (id : RefId) : Option Reference :=
  p.slots[id.index]?.join

/-- Gives a slot back. An empty slot stays as it is. -/
def release (p : ReferencePool) (id : RefId) : Option Reference × ReferencePool :=
  match p.get? id with
  | some r => (some r, ⟨p.slots.setIfInBounds id.index none, id.index :: p.free⟩)
  | none => (none, p)

/-- The number of slots in use. -/
def inUse (p : ReferencePool) : Nat :=
  p.slots.size - p.free.length

/-- The number of slots. -/
def capacity (p : ReferencePool) : Nat :=
  p.slots.size

/-- A slot that was given back holds nothing. -/
theorem get?_release (p : ReferencePool) (id : RefId) : (p.release id).2.get? id = none := by
  unfold release
  split
  · next r h =>
    have hlt : id.index < p.slots.size := by
      apply Classical.byContradiction
      intro hge
      simp [get?, hge] at h
    simp [get?, hlt]
  · next h => exact h

/-- Giving a slot back leaves the other slots alone. -/
theorem get?_release_of_ne (p : ReferencePool) {id other : RefId} (hne : other ≠ id) :
    (p.release id).2.get? other = p.get? other := by
  have hi : id.index ≠ other.index := fun he => hne (by cases id; cases other; simp_all)
  unfold release
  split
  · simp [get?, Array.getElem?_setIfInBounds_ne hi]
  · rfl

end ReferencePool

end ScriptOps
