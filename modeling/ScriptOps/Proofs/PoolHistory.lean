import Mathlib.Order.Bounds.Basic
import ScriptOps.Proofs.ReferencePools

/-!
# Histories of a pool

Any calls on a pool that was empty at the start, with any handles: current ones, stale ones, and
ones that were never issued. One call keeps the list of empty slots exact, and makes the pool longer
only when every slot is in use. So after every history the list of empty slots is exact, a new
reference never takes the place of another one, and the pool is as long as it was ever in need of.

A handle is the place of a slot, so what it stands for changes with the history. While its slot is
empty a handle that was given back reads nothing and gives nothing back. When the slot is used again
the same handle is issued again, and stands for the new reference.
-/

namespace ScriptOps

/-- A call on a pool. -/
inductive PoolCall where
  | acquire (r : Reference)
  | get (id : RefId)
  | release (id : RefId)

/-- What a call makes of the pool. -/
def PoolCall.run : PoolCall → ReferencePool → ReferencePool
  | acquire r, p => (p.acquire r).2
  | get _, p => p
  | release id, p => (p.release id).2

namespace ReferencePool

/-- The pool after calls, one after the other. -/
def runAll (p : ReferencePool) (calls : List PoolCall) : ReferencePool :=
  calls.foldl (fun p c => c.run p) p

/-- The handles that calls issue, one after the other. -/
def issued (p : ReferencePool) : List PoolCall → List RefId
  | [] => []
  | .acquire r :: rest => (p.acquire r).1 :: (p.acquire r).2.issued rest
  | c :: rest => (c.run p).issued rest

variable {p : ReferencePool}

/-- A history runs as its first part followed by the rest. -/
theorem runAll_append (p : ReferencePool) (calls more : List PoolCall) :
    p.runAll (calls ++ more) = (p.runAll calls).runAll more :=
  List.foldl_append

/-! ### The list of empty slots -/

/-- A call leaves a reachable pool reachable. -/
theorem Reachable.run (h : p.Reachable) (c : PoolCall) : (c.run p).Reachable := by
  cases c with
  | acquire r => exact h.acquire r
  | get id => exact h
  | release id => exact h.release id

/-- Every history leads to a pool that arises from the empty one. -/
theorem Reachable.runAll (h : p.Reachable) (calls : List PoolCall) :
    (p.runAll calls).Reachable := by
  induction calls generalizing p with
  | nil => exact h
  | cons c rest ih => exact ih (h.run c)

/-- Giving a slot back does not put more slots in use. -/
theorem inUse_release_le (p : ReferencePool) (id : RefId) :
    (p.release id).2.inUse ≤ p.inUse := by
  unfold release inUse
  cases p.get? id with
  | none => exact Nat.le_refl _
  | some r =>
    simp only [Array.size_setIfInBounds, List.length_cons]
    omega

/-- The slot of a new reference is an empty one, or a new one if none is empty. -/
theorem index_acquire (p : ReferencePool) (r : Reference) :
    (p.acquire r).1.index ∈ p.free ∨ p.free = [] ∧ (p.acquire r).1.index = p.capacity := by
  unfold acquire
  cases hfree : p.free with
  | nil => exact .inr ⟨rfl, rfl⟩
  | cons slot rest => exact .inl (List.mem_cons_self ..)

namespace Valid

/-- There are not more empty slots than slots. -/
theorem length_free_le (h : p.Valid) : p.free.length ≤ p.slots.size := by
  have hcard : p.free.toFinset.card = p.free.length := List.toFinset_card_of_nodup h.nodup
  have hle : p.free.toFinset.card ≤ (Finset.range p.slots.size).card := by
    rw [h.toFinset_free]
    exact Finset.card_filter_le _ _
  rwa [hcard, Finset.card_range] at hle

/-- The slots in use and the free ones make up the capacity. -/
theorem inUse_add_length_free (h : p.Valid) : p.inUse + p.free.length = p.capacity :=
  Nat.sub_add_cancel h.length_free_le

/-- No more references are in use than there are slots. -/
theorem inUse_le_capacity (h : p.Valid) : p.inUse ≤ p.capacity :=
  h.inUse_add_length_free ▸ Nat.le_add_right _ _

/-- A reference that is put in is one more in use. -/
theorem inUse_acquire (h : p.Valid) (r : Reference) : (p.acquire r).2.inUse = p.inUse + 1 := by
  have hfull := h.length_free_le
  unfold ReferencePool.acquire inUse
  cases hfree : p.free with
  | nil => simp
  | cons slot rest =>
    rw [hfree, List.length_cons] at hfull
    simp only [Array.size_setIfInBounds, List.length_cons]
    omega

/-- A new slot is added only if none is empty, and all are in use then. -/
theorem capacity_run (h : p.Valid) (c : PoolCall) :
    (c.run p).capacity = max p.capacity (c.run p).inUse := by
  have hle := h.inUse_le_capacity
  cases c with
  | get id => exact (max_eq_left hle).symm
  | release id =>
    have hsame : (p.release id).2.capacity = p.capacity := by
      unfold ReferencePool.release capacity
      cases p.get? id <;> simp
    have hless := (inUse_release_le p id).trans hle
    exact hsame.trans (max_eq_left hless).symm
  | acquire r =>
    have hsum := h.inUse_add_length_free
    change (p.acquire r).2.capacity = max p.capacity (p.acquire r).2.inUse
    rw [h.inUse_acquire r]
    unfold ReferencePool.acquire capacity at *
    cases hfree : p.free with
    | nil =>
      rw [hfree, List.length_nil] at hsum
      simp only [Array.size_push]
      omega
    | cons slot rest =>
      rw [hfree, List.length_cons] at hsum
      simp only [Array.size_setIfInBounds]
      omega

end Valid

/-! ### What a handle stands for -/

/-- Only its own release takes a reference out of its slot. -/
theorem Valid.get?_run {id : RefId} {r : Reference} (h : p.Valid) (hget : p.get? id = some r)
    {c : PoolCall} (hc : c ≠ .release id) : (c.run p).get? id = some r := by
  cases c with
  | get other => exact hget
  | release other =>
    have hne : id ≠ other := fun heq => hc (heq ▸ rfl)
    exact (p.get?_release_of_ne hne).trans hget
  | acquire s =>
    -- the new reference went into a slot that held nothing
    have hne : id ≠ (p.acquire s).1 := fun heq => by
      rw [heq, h.get?_fresh s] at hget
      nomatch hget
    exact (p.get?_acquire_of_ne s hne).trans hget

/-- A reference stays in its slot until the slot is given back. -/
theorem Reachable.get?_runAll {id : RefId} {r : Reference} (h : p.Reachable)
    (hget : p.get? id = some r) {calls : List PoolCall} (hcalls : .release id ∉ calls) :
    (p.runAll calls).get? id = some r := by
  induction calls generalizing p with
  | nil => exact hget
  | cons c rest ih =>
    obtain ⟨hc, hrest⟩ := List.ne_and_not_mem_of_not_mem_cons hcalls
    exact ih (h.run c) (h.valid.get?_run hget (Ne.symm hc)) hrest

/-- An empty slot stays empty until its handle is issued again. -/
theorem get?_runAll_of_not_issued {id : RefId} (hget : p.get? id = none) {calls : List PoolCall}
    (hcalls : id ∉ p.issued calls) : (p.runAll calls).get? id = none := by
  induction calls generalizing p with
  | nil => exact hget
  | cons c rest ih =>
    cases c with
    | get other => exact ih hget hcalls
    | release other =>
      refine ih ?_ hcalls
      by_cases hid : id = other
      · exact hid ▸ p.get?_release id
      · exact (p.get?_release_of_ne hid).trans hget
    | acquire r =>
      obtain ⟨hid, hrest⟩ := List.ne_and_not_mem_of_not_mem_cons hcalls
      exact ih ((p.get?_acquire_of_ne r hid).trans hget) hrest

/-- Giving back what holds nothing does nothing. -/
theorem release_of_get?_eq_none {id : RefId} (hget : p.get? id = none) :
    p.release id = (none, p) := by
  rw [release, hget]

/-- A release answers with what the slot held. -/
theorem fst_release (p : ReferencePool) (id : RefId) : (p.release id).1 = p.get? id := by
  unfold release
  cases p.get? id <;> rfl

/-- A handle that was given back is inert until it is issued again. However the pool came about and
whatever is done after the release: if no new reference got the handle meanwhile, then it reads
nothing, and giving it back again answers nothing and leaves the whole pool as it is. A new
reference that does get its slot gets the handle too, which reads that reference and gives it back
until it is released once more. In any case a release leaves what all other handles stand for. -/
theorem released_handles_inert (calls later : List PoolCall) (id : RefId) :
    let p := ((empty.runAll calls).release id).2
    let q := p.runAll later;
    (id ∉ p.issued later → q.get? id = none ∧ q.release id = (none, q)) ∧
    (∀ before r after, later = before ++ .acquire r :: after →
      ((p.runAll before).acquire r).1 = id → .release id ∉ after →
        q.get? id = some r ∧ (q.release id).1 = some r) ∧
    ∀ other, other ≠ id → (q.release id).2.get? other = q.get? other := by
  intro p q
  have hp : p.Reachable := (Reachable.empty.runAll calls).release id
  refine ⟨fun hissued => ?_, ?_, fun other hother => q.get?_release_of_ne hother⟩
  · have hget : q.get? id = none := get?_runAll_of_not_issued (get?_release _ id) hissued
    exact ⟨hget, release_of_get?_eq_none hget⟩
  · rintro before r after rfl hid hafter
    have hbefore := hp.runAll before
    have hself := hbefore.valid.get?_acquire_self r
    rw [hid] at hself
    have hget : q.get? id = some r := by
      have hlast := (hbefore.acquire r).get?_runAll hself hafter
      exact (congrArg (·.get? id) (runAll_append p before (.acquire r :: after))).trans hlast
    exact ⟨hget, (q.fst_release id).trans hget⟩

/-- The handle 0 is given back while the handle 1 is in use, and then once more. -/
theorem released_handles_inert_twice :
    let p := ((empty.runAll [.acquire (.unresolvable "a"), .acquire (.unresolvable "b")]).release
      ⟨0⟩).2
    let q := p.runAll [.get ⟨0⟩, .release ⟨0⟩];
    ⟨0⟩ ∉ p.issued [.get ⟨0⟩, .release ⟨0⟩] ∧ q.release ⟨0⟩ = (none, q) ∧
      (q.release ⟨0⟩).2.get? ⟨1⟩ = some (.unresolvable "b") := by
  intro p q
  have hissued : ⟨0⟩ ∉ p.issued [.get ⟨0⟩, .release ⟨0⟩] := List.not_mem_nil
  obtain ⟨hinert, -, hothers⟩ := released_handles_inert
    [.acquire (.unresolvable "a"), .acquire (.unresolvable "b")] [.get ⟨0⟩, .release ⟨0⟩] ⟨0⟩
  exact ⟨hissued, (hinert hissued).2, (hothers ⟨1⟩ (by decide)).trans rfl⟩

/-- The slot of a handle that was given back is used again: the stale handle reads the new
reference, and giving it back once more takes that out of the pool. -/
theorem released_handle_stands_for_another :
    let p := ((empty.acquire (.unresolvable "a")).2.release ⟨0⟩).2
    let q := (p.acquire (.unresolvable "b")).2;
    q.get? ⟨0⟩ = some (.unresolvable "b") ∧ (q.release ⟨0⟩).1 = some (.unresolvable "b") ∧
      (q.release ⟨0⟩).2.get? (p.acquire (.unresolvable "b")).1 = none :=
  ⟨rfl, rfl, rfl⟩

/-! ### Slots in use -/

/-- The pool is as long as the greatest number of references that were in use at once. -/
theorem isGreatest_capacity (calls : List PoolCall) :
    IsGreatest ((fun before => (empty.runAll before).inUse) '' {before | before <+: calls})
      (empty.runAll calls).capacity := by
  induction calls using List.reverseRecOn with
  | nil =>
    have hprefixes : {before : List PoolCall | before <+: []} = {[]} := by
      ext before
      exact List.prefix_nil
    rw [hprefixes, Set.image_singleton]
    exact isGreatest_singleton
  | append_singleton calls c ih =>
    have hprefixes : {before | before <+: calls ++ [c]} =
        insert (calls ++ [c]) {before | before <+: calls} := by
      ext before
      exact List.prefix_concat_iff
    have hvalid := (Reachable.empty.runAll calls).valid
    have hrun : empty.runAll (calls ++ [c]) = c.run (empty.runAll calls) :=
      runAll_append empty calls [c]
    rw [hprefixes, Set.image_insert_eq, hrun, hvalid.capacity_run c, max_comm]
    exact ih.insert _

/-- The pool never puts a reference over another one. After any calls, with any handles: the list of
empty slots has each of them once, and no other slot; as many slots are in use as hold a reference,
which with the empty ones are all; a new reference goes into an empty slot, or into a new one if
there is none, changes no other, and is found there until that slot is given back; and the pool has
as many slots as the greatest number that were in use at once. -/
theorem pool_slots_exact (calls : List PoolCall) :
    let p := empty.runAll calls;
    p.Valid ∧
    (p.inUse = p.occupied.card ∧ p.inUse + p.free.length = p.capacity) ∧
    (∀ r,
      let id := (p.acquire r).1
      let q := (p.acquire r).2;
      (p.get? id = none ∧ (id.index ∈ p.free ∨ p.free = [] ∧ id.index = p.capacity)) ∧
      (∀ other, other ≠ id → q.get? other = p.get? other) ∧
      ∀ later, .release id ∉ later → (q.runAll later).get? id = some r) ∧
    IsGreatest ((fun before => (empty.runAll before).inUse) '' {before | before <+: calls})
      p.capacity := by
  intro p
  have hp : p.Reachable := Reachable.empty.runAll calls
  refine ⟨hp.valid, ⟨hp.valid.inUse_eq_card, hp.valid.inUse_add_length_free⟩, fun r => ?_,
    isGreatest_capacity calls⟩
  refine ⟨⟨hp.valid.get?_fresh r, p.index_acquire r⟩, fun other hother =>
    p.get?_acquire_of_ne r hother, fun later hlater => ?_⟩
  exact (hp.acquire r).get?_runAll (hp.valid.get?_acquire_self r) hlater

/-- Two references, of which the first is given back twice: the third gets its slot. -/
theorem pool_slots_exact_reused :
    let calls : List PoolCall := [.acquire (.unresolvable "a"), .acquire (.unresolvable "b"),
      .release ⟨0⟩, .release ⟨0⟩, .release ⟨7⟩]
    let p := empty.runAll calls
    let later : List PoolCall := [.acquire (.unresolvable "d"), .release ⟨1⟩];
    (p.acquire (.unresolvable "c")).1 = ⟨0⟩ ∧ .release ⟨0⟩ ∉ later ∧
      ((p.acquire (.unresolvable "c")).2.runAll later).get? ⟨0⟩ = some (.unresolvable "c") := by
  intro calls p later
  have hid : (p.acquire (.unresolvable "c")).1 = ⟨0⟩ := rfl
  have hlater : .release ⟨0⟩ ∉ later := by simp [later]
  obtain ⟨-, -, hacquire, -⟩ := pool_slots_exact calls
  exact ⟨hid, hlater, (hacquire (.unresolvable "c")).2.2 later hlater⟩

end ReferencePool

end ScriptOps
