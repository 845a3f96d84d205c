import Mathlib.Data.List.Nodup
import Mathlib.Data.List.Perm.Subperm
import Mathlib.Logic.Relation
import ScriptOps.BinaryOperation
import ScriptOps.Proofs.Agreement

/-!
# Prototype chains are finite

The heaps that arise by creating objects and setting prototypes. In each of them the way upward from
an object ends, because a prototype that lies below the object is refused; the walk that finds this
out ends for the same reason. The number of objects bounds the way, so `Heap.chain` is never cut
short, and whatever walks along it sees all of it.
-/

namespace ScriptOps

namespace Heap

/-- The second object is the prototype of the first one. -/
def HasPrototype (h : Heap) (id prototype : ObjectId) : Prop :=
  (h.object id).prototype? = some prototype

/-- The list goes from an object upward to one without a prototype. -/
inductive IsChain (h : Heap) : List ObjectId → Prop where
  | top {id : ObjectId} (hid : (h.object id).prototype? = none) : IsChain h [id]
  | under {id next : ObjectId} {rest : List ObjectId} (hid : h.HasPrototype id next)
    (hrest : IsChain h (next :: rest)) : IsChain h (id :: next :: rest)

variable {h h' : Heap} {id next : ObjectId} {l l' : List ObjectId}

/-! ### Ways upward -/

namespace IsChain

/-- There is only one way upward. -/
theorem unique (hl : h.IsChain (id :: l)) (hl' : h.IsChain (id :: l')) : l = l' := by
  generalize hchain : id :: l = chain at hl
  induction hl generalizing id l l' with
  | top hid =>
    obtain ⟨rfl, rfl⟩ := List.cons.inj hchain
    cases hl' with
    | top => rfl
    | under hnext => nomatch hid.symm.trans hnext
  | under hid _ ih =>
    obtain ⟨rfl, rfl⟩ := List.cons.inj hchain
    cases hl' with
    | top hnone => nomatch hid.symm.trans hnone
    | under hnext hrest =>
      cases hid.symm.trans hnext
      rw [ih hrest rfl]

/-- The way upward from an object of a chain is a part of the chain. -/
theorem of_mem (hl : h.IsChain l) (hid : id ∈ l) :
    ∃ rest, h.IsChain (id :: rest) ∧ id :: rest <:+ l := by
  induction hl with
  | top hnone =>
    obtain rfl := List.mem_singleton.1 hid
    exact ⟨[], .top hnone, List.suffix_refl _⟩
  | under hnext hrest ih =>
    rcases List.mem_cons.1 hid with rfl | hmem
    · exact ⟨_, .under hnext hrest, List.suffix_refl _⟩
    · obtain ⟨rest, hchain, hsuffix⟩ := ih hmem
      exact ⟨rest, hchain, hsuffix.trans (List.suffix_cons _ _)⟩

/-- A chain meets no object twice: the way upward would repeat itself without end. -/
theorem nodup (hl : h.IsChain l) : l.Nodup := by
  induction hl with
  | top => simp
  | under hnext hrest ih =>
    refine List.nodup_cons.2 ⟨fun hmem => ?_, ih⟩
    obtain ⟨rest, hchain, hsuffix⟩ := hrest.of_mem hmem
    obtain rfl := hchain.unique (under hnext hrest)
    exact absurd hsuffix.length_le (by simp)

/-- An identity without an object has no prototype, so all of a chain but its top are objects. -/
theorem lt_size_of_ne_last (hl : h.IsChain l) : ∀ id ∈ l.dropLast, id.index < h.size := by
  induction hl with
  | top => simp
  | @under first next rest hnext hrest ih =>
    intro id hid
    rcases List.mem_cons.1 hid with rfl | hmem
    · by_contra hsize
      rw [HasPrototype, h.object_of_ge (Nat.le_of_not_lt hsize)] at hnext
      nomatch hnext
    · exact ih id hmem

/-- So the number of objects bounds the length of a chain. -/
theorem length_le (hl : h.IsChain l) : l.length ≤ h.size + 1 := by
  have hinj : Function.Injective ObjectId.index := fun ⟨_⟩ ⟨_⟩ => congrArg ObjectId.mk
  have hnodup : (l.dropLast.map ObjectId.index).Nodup :=
    (hl.nodup.sublist (List.dropLast_sublist l)).map hinj
  have hsub : l.dropLast.map ObjectId.index ⊆ List.range h.size := by
    intro i hi
    obtain ⟨id, hid, rfl⟩ := List.mem_map.1 hi
    exact List.mem_range.2 (hl.lt_size_of_ne_last id hid)
  have hlength := (List.subperm_of_subset hnodup hsub).length_le
  simp only [List.length_map, List.length_dropLast, List.length_range] at hlength
  omega

/-- With enough fuel the walk upward gives the chain. -/
theorem chainUpTo_eq (hl : h.IsChain (id :: l)) {fuel : Nat} (hfuel : (id :: l).length ≤ fuel) :
    h.chainUpTo fuel id = id :: l := by
  generalize hchain : id :: l = chain at hl
  induction hl generalizing id l fuel with
  | top hid =>
    obtain ⟨rfl, rfl⟩ := List.cons.inj hchain
    obtain ⟨fuel, rfl⟩ : ∃ n, fuel = n + 1 := ⟨fuel - 1, by simp at hfuel; omega⟩
    rw [chainUpTo, hid]
  | under hid _ ih =>
    obtain ⟨rfl, rfl⟩ := List.cons.inj hchain
    obtain ⟨fuel, rfl⟩ : ∃ n, fuel = n + 1 := ⟨fuel - 1, by simp at hfuel; omega⟩
    rw [chainUpTo, hid]
    exact congrArg (_ :: ·) (ih (by simpa using hfuel) rfl)

/-- The walk upward is not cut short. -/
theorem chain_eq (hl : h.IsChain (id :: l)) : h.chain id = id :: l :=
  hl.chainUpTo_eq hl.length_le

/-- A chain is a chain in every heap in which its objects have the same prototypes. -/
theorem of_prototypes (hl : h.IsChain l)
    (hsame : ∀ id ∈ l, (h'.object id).prototype? = (h.object id).prototype?) : h'.IsChain l := by
  induction hl with
  | top hid => exact .top ((hsame _ (by simp)).trans hid)
  | under hid _ ih =>
    exact .under ((hsame _ (by simp)).trans hid)
      (ih fun other hother => hsame other (List.mem_cons_of_mem _ hother))

end IsChain

/-! ### Heaps without circles -/

/-- Every prototype is an object, and every way upward ends. -/
structure IsGrounded (h : Heap) : Prop where
  lt_size : ∀ {id prototype : ObjectId}, h.HasPrototype id prototype → prototype.index < h.size
  ends : ∀ id, ∃ l, h.IsChain (id :: l)

namespace IsGrounded

/-- The objects that the walk visits form a chain to an object without a prototype. -/
theorem isChain (hh : h.IsGrounded) (id : ObjectId) : h.IsChain (h.chain id) := by
  obtain ⟨l, hl⟩ := hh.ends id
  rw [hl.chain_eq]
  exact hl

/-- The chain of an object is the object and the chain of its prototype. -/
theorem chain_eq (hh : h.IsGrounded) (id : ObjectId) :
    h.chain id = id :: match (h.object id).prototype? with
      | some next => h.chain next
      | none => [] := by
  obtain ⟨l, hl⟩ := hh.ends id
  rw [hl.chain_eq]
  cases hl with
  | top hid => rw [hid]
  | under hid hrest =>
    rw [hid]
    exact congrArg (_ :: ·) hrest.chain_eq.symm

/-- The chain holds the object and all that lies above it. -/
theorem mem_chain (hh : h.IsGrounded) {other : ObjectId} :
    other ∈ h.chain id ↔ Relation.ReflTransGen h.HasPrototype id other := by
  constructor
  · intro hmem
    obtain ⟨l, hl⟩ := hh.ends id
    rw [hl.chain_eq] at hmem
    generalize hchain : id :: l = chain at hl hmem
    induction hl generalizing id l with
    | top =>
      obtain ⟨rfl, rfl⟩ := List.cons.inj hchain
      rw [List.mem_singleton.1 hmem]
    | under hid _ ih =>
      obtain ⟨rfl, rfl⟩ := List.cons.inj hchain
      rcases List.mem_cons.1 hmem with rfl | hrest
      · exact .refl
      · exact .head hid (ih _ rfl hrest)
  · intro hpath
    induction hpath using Relation.ReflTransGen.head_induction_on with
    | refl =>
      rw [hh.chain_eq]
      exact List.mem_cons_self
    | head hid _ ih =>
      rw [hh.chain_eq, hid]
      exact List.mem_cons_of_mem _ ih

/-- The rest of the chain holds what lies above the object. -/
theorem mem_tail_chain (hh : h.IsGrounded) {other : ObjectId} :
    other ∈ (h.chain id).tail ↔ Relation.TransGen h.HasPrototype id other := by
  rw [hh.chain_eq, List.tail_cons, Relation.TransGen.head'_iff]
  cases hid : (h.object id).prototype? with
  | none =>
    constructor
    · intro hmem
      nomatch hmem
    · rintro ⟨next, hnext, _⟩
      nomatch hid.symm.trans hnext
  | some next =>
    rw [hh.mem_chain]
    constructor
    · intro hpath
      exact ⟨next, hid, hpath⟩
    · rintro ⟨_, hnext, hpath⟩
      cases hid.symm.trans hnext
      exact hpath

/-- What lies above an object is an object. -/
theorem lt_size_of_mem_chain (hh : h.IsGrounded) {other : ObjectId} (hid : id.index < h.size)
    (hother : other ∈ h.chain id) : other.index < h.size := by
  cases hh.mem_chain.1 hother with
  | refl => exact hid
  | tail _ hlast => exact hh.lt_size hlast

/-- No object lies above itself. -/
theorem acyclic (hh : h.IsGrounded) (id : ObjectId) : ¬Relation.TransGen h.HasPrototype id id := by
  rw [← hh.mem_tail_chain]
  have hnodup := (hh.isChain id).nodup
  rw [hh.chain_eq] at hnodup ⊢
  exact (List.nodup_cons.1 hnodup).1

/-- A walk upward comes to its end. -/
theorem wellFounded (hh : h.IsGrounded) : WellFounded fun next id => h.HasPrototype id next := by
  refine ⟨fun id => ?_⟩
  obtain ⟨l, hl⟩ := hh.ends id
  generalize hchain : id :: l = chain at hl
  induction hl generalizing id l with
  | top hid =>
    obtain ⟨rfl, rfl⟩ := List.cons.inj hchain
    exact ⟨_, fun next hnext => nomatch hid.symm.trans hnext⟩
  | under hid _ ih =>
    obtain ⟨rfl, rfl⟩ := List.cons.inj hchain
    refine ⟨_, fun next hnext => ?_⟩
    cases hid.symm.trans hnext
    exact ih _ _ rfl

/-! ### What keeps heaps free of circles -/

/-- The empty heap has no prototypes. -/
theorem empty : IsGrounded .empty where
  lt_size hid := nomatch hid
  ends _ := ⟨[], .top rfl⟩

/-- A new object lies below objects that are there, and above none. -/
theorem add (hh : h.IsGrounded) {o : Object}
    (ho : ∀ p, o.prototype? = some p → p.index < h.size) : (h.add o).2.IsGrounded := by
  have hnew : (h.add o).2.object ⟨h.size⟩ = o := h.object_add o
  have hold {old : ObjectId} (hold : old.index < h.size) := h.object_add_of_lt o hold
  have hnone {id : ObjectId} (hid : h.size < id.index) := h.object_add_of_gt o hid
  -- the ways upward from the objects that are there stay among them
  have hends {id : ObjectId} (hid : id.index < h.size) : ∃ l, (h.add o).2.IsChain (id :: l) := by
    obtain ⟨l, hl⟩ := hh.ends id
    refine ⟨l, hl.of_prototypes fun other hother => ?_⟩
    rw [← hl.chain_eq] at hother
    rw [hold (hh.lt_size_of_mem_chain hid hother)]
  constructor
  · intro ⟨i⟩ p hp
    rw [HasPrototype] at hp
    rw [size_add]
    rcases Nat.lt_trichotomy i h.size with hlt | rfl | hgt
    · rw [hold hlt] at hp
      exact Nat.lt_succ_of_lt (hh.lt_size hp)
    · rw [hnew] at hp
      exact Nat.lt_succ_of_lt (ho p hp)
    · rw [hnone hgt] at hp
      nomatch hp
  · intro ⟨i⟩
    rcases Nat.lt_trichotomy i h.size with hlt | rfl | hgt
    · exact hends hlt
    · cases hp : o.prototype? with
      | none => exact ⟨[], .top (by rw [hnew, hp])⟩
      | some p =>
        obtain ⟨l, hl⟩ := hends (ho p hp)
        exact ⟨p :: l, .under (by rw [HasPrototype, hnew, hp]) hl⟩
    · exact ⟨[], .top (by rw [hnone hgt]; rfl)⟩

/-- An object may change in everything but its prototype. -/
theorem update (hh : h.IsGrounded) {o : Object} (ho : o.prototype? = (h.object id).prototype?) :
    (h.update id o).IsGrounded := by
  have hsame (other : ObjectId) :
      ((h.update id o).object other).prototype? = (h.object other).prototype? := by
    by_cases hother : other = id
    · subst hother
      by_cases hlt : other.index < h.size
      · rw [object_update_self h other o hlt, ho]
      · have hstay : h.update other o = h := by
          have hlt' : ¬other.index < h.objects.size := hlt
          simp [Heap.update, Array.setIfInBounds, hlt']
        rw [hstay]
    · rw [object_update_of_ne h hother]
  constructor
  · intro id' p hp
    rw [size_update]
    exact hh.lt_size ((hsame id').symm.trans hp)
  · intro id'
    obtain ⟨l, hl⟩ := hh.ends id'
    exact ⟨l, hl.of_prototypes fun other _ => hsame other⟩

end IsGrounded

/-! ### Setting a prototype -/

/-- The object has the prototype, and nothing else has changed. -/
structure Relinked (h : Heap) (id : ObjectId) (prototype? : Option ObjectId) (h' : Heap) :
    Prop where
  size : h'.size = h.size
  object : h'.object id = { h.object id with prototype? }
  frame : ∀ other, other ≠ id → h'.object other = h.object other

/-- A prototype that is accepted changes the link of one object. -/
theorem relinked_of_setPrototype? {prototype? : Option ObjectId} (hid : id.index < h.size)
    (hset : h.setPrototype? id prototype? = some h') : h.Relinked id prototype? h' := by
  unfold setPrototype? at hset
  obtain ⟨_, hupdate⟩ := Option.ite_none_left_eq_some.1 hset
  obtain rfl := Option.some.inj hupdate
  exact ⟨h.size_update id _, h.object_update_self id _ hid,
    fun other hother => h.object_update_of_ne hother _⟩

/-- It is refused when it is the object itself or lies below the object. -/
theorem setPrototype?_eq_none {prototype : ObjectId} :
    h.setPrototype? id (some prototype) = none ↔ id ∈ h.chain prototype := by
  simp [setPrototype?]

namespace IsGrounded

/-- The ways upward that came by the object go on with the chain of its new prototype, which does
not lead back to the object. -/
theorem relink {prototype? : Option ObjectId} (hh : h.IsGrounded) (hid : id.index < h.size)
    (hp : ∀ p, prototype? = some p → p.index < h.size)
    (hset : h.setPrototype? id prototype? = some h') : h'.IsGrounded := by
  obtain ⟨hsize, hobject, hframe⟩ := relinked_of_setPrototype? hid hset
  -- the way upward from the object itself
  have hown : ∃ l, h'.IsChain (id :: l) := by
    cases prototype? with
    | none => exact ⟨[], .top (by rw [hobject])⟩
    | some p =>
      have hapart : id ∉ h.chain p := fun hmem => by
        rw [setPrototype?_eq_none.2 hmem] at hset
        nomatch hset
      have hchain : h'.IsChain (h.chain p) := (hh.isChain p).of_prototypes fun other hother => by
        rw [hframe other fun heq => hapart (heq ▸ hother)]
      rw [hh.chain_eq] at hchain
      exact ⟨_, .under (by rw [HasPrototype, hobject]) hchain⟩
  constructor
  · intro other p hother
    rw [HasPrototype] at hother
    rw [hsize]
    by_cases heq : other = id
    · rw [heq, hobject] at hother
      exact hp p hother
    · rw [hframe other heq] at hother
      exact hh.lt_size hother
  · intro other
    induction other using hh.wellFounded.induction with
    | _ other ih =>
      by_cases heq : other = id
      · exact heq ▸ hown
      · cases hother : (h.object other).prototype? with
        | none => exact ⟨[], .top (by rw [hframe other heq, hother])⟩
        | some next =>
          obtain ⟨l, hl⟩ := ih next hother
          exact ⟨next :: l, .under (by rw [HasPrototype, hframe other heq, hother]) hl⟩

/-! ### Walks upward -/

/-- Reading goes on with the prototype where the object has nothing. -/
theorem get_eq (hh : h.IsGrounded) (id : ObjectId) (key : String) :
    h.get id key = match (h.object id).getOwn? key, (h.object id).prototype? with
      | some v, _ => v
      | none, some next => h.get next key
      | none, none => .undefined := by
  rw [Heap.get, hh.chain_eq, List.findSome?_cons]
  cases (h.object id).getOwn? key with
  | some v => rfl
  | none => cases (h.object id).prototype? <;> rfl

/-- An inherited property is looked for on the object and then from its prototype on. -/
theorem has_eq (hh : h.IsGrounded) (id : ObjectId) (key : String) :
    h.has id key = ((h.object id).hasOwn key || match (h.object id).prototype? with
      | some next => h.has next key
      | none => false) := by
  rw [Heap.has, hh.chain_eq, List.any_cons]
  cases (h.object id).prototype? <;> rfl

/-- Asking whether a property can be assigned goes on where the object has no opinion. -/
theorem isWritable_eq (hh : h.IsGrounded) (id : ObjectId) (key : String) :
    h.isWritable id key = match (h.object id).writable? key, (h.object id).prototype? with
      | some writable, _ => writable
      | none, some next => h.isWritable next key
      | none, none => true := by
  rw [Heap.isWritable, hh.chain_eq, List.findSome?_cons]
  cases (h.object id).writable? key with
  | some writable => rfl
  | none => cases (h.object id).prototype? <;> rfl

/-- A function made an object when the value of its property `prototype` lies above the object. -/
theorem isInstanceOf_eq (hh : h.IsGrounded) {f prototype : ObjectId} {data : FunctionData}
    (hf : h.kind f = .function data) (hprototype : h.get f "prototype" = .object prototype)
    (trace : List Event) : ∃ found : Bool,
      isInstanceOf (.object id) (.object f) ⟨h, trace⟩ = .ok found ⟨h, trace⟩ ∧
        (found ↔ Relation.TransGen h.HasPrototype id prototype) := by
  refine ⟨decide (prototype ∈ (h.chain id).tail), ?_, ?_⟩
  · have hheap : (Action.heap : Action Heap) ⟨h, trace⟩ = .ok h ⟨h, trace⟩ := rfl
    refine (bind_of_ok hheap).trans ?_
    simp only [hf, hprototype]
    rfl
  · rw [decide_eq_true_iff, hh.mem_tail_chain]

end IsGrounded

/-! ### Heaps that arise from the empty one -/

/-- The heaps that arise from the empty one. Objects are created with or without a prototype, get
prototypes, and change in all else that they have. -/
inductive Reachable : Heap → Prop where
  | empty : Reachable .empty
  | add {h : Heap} (o : Object) : Reachable h → (∀ p, o.prototype? = some p → p.index < h.size) →
    Reachable (h.add o).2
  | setPrototype {h h' : Heap} (id : ObjectId) (prototype? : Option ObjectId) : Reachable h →
    id.index < h.size → (∀ p, prototype? = some p → p.index < h.size) →
    h.setPrototype? id prototype? = some h' → Reachable h'
  | update {h : Heap} (id : ObjectId) (o : Object) : Reachable h →
    o.prototype? = (h.object id).prototype? → Reachable (h.update id o)

namespace Reachable

/-- The invariant of the heap. -/
theorem isGrounded (hh : h.Reachable) : h.IsGrounded := by
  induction hh with
  | empty => exact .empty
  | add o _ ho ih => exact ih.add ho
  | setPrototype id prototype? _ hid hp hset ih => exact ih.relink hid hp hset
  | update id o _ ho ih => exact ih.update ho

end Reachable

end Heap

/-- Prototype chains stay finite. In every heap that arises by creating objects, with a prototype or
without, and by setting prototypes, no object lies above itself, and every walk upward ends after
the objects of its chain. A prototype is refused exactly when the object is the prototype or lies
above it, and then nothing changes; otherwise the link of the object changes and nothing else. So
the walks of reading, of membership, of the question whether a property can be assigned, and of
`instanceof` come to their ends on every object: each step goes to the prototype. -/
theorem prototype_chains_finite {h : Heap} (hh : h.Reachable) :
    (∀ o, ¬Relation.TransGen h.HasPrototype o o) ∧
    (WellFounded (fun next o => h.HasPrototype o next) ∧ ∀ o, h.IsChain (h.chain o)) ∧
    (∀ (o : ObjectId) (prototype? : Option ObjectId) (trace : List Event), o.index < h.size →
      ((∃ p, prototype? = some p ∧ Relation.ReflTransGen h.HasPrototype p o) →
        Action.link o prototype? ⟨h, trace⟩ = .ok false ⟨h, trace⟩) ∧
      ((¬∃ p, prototype? = some p ∧ Relation.ReflTransGen h.HasPrototype p o) →
        ∃ h', Action.link o prototype? ⟨h, trace⟩ = .ok true ⟨h', trace⟩ ∧
          h.Relinked o prototype? h')) ∧
    (∀ (o : ObjectId) (key : String),
      (h.get o key = match (h.object o).getOwn? key, (h.object o).prototype? with
        | some v, _ => v
        | none, some next => h.get next key
        | none, none => .undefined) ∧
      (h.has o key = ((h.object o).hasOwn key || match (h.object o).prototype? with
        | some next => h.has next key
        | none => false)) ∧
      h.isWritable o key = match (h.object o).writable? key, (h.object o).prototype? with
        | some writable, _ => writable
        | none, some next => h.isWritable next key
        | none, none => true) ∧
    ∀ (o f prototype : ObjectId) (data : FunctionData) (trace : List Event),
      h.kind f = .function data → h.get f "prototype" = .object prototype →
        ∃ found : Bool, isInstanceOf (.object o) (.object f) ⟨h, trace⟩ = .ok found ⟨h, trace⟩ ∧
          (found ↔ Relation.TransGen h.HasPrototype o prototype) := by
  have hgrounded := hh.isGrounded
  refine ⟨hgrounded.acyclic, ⟨hgrounded.wellFounded, hgrounded.isChain⟩, ?_, ?_, ?_⟩
  · intro o prototype? trace ho
    constructor
    · rintro ⟨p, rfl, hpath⟩
      have hnone := Heap.setPrototype?_eq_none.2 (hgrounded.mem_chain.2 hpath)
      rw [Action.link_eq]
      dsimp only
      rw [hnone]
    · intro hfree
      cases hset : h.setPrototype? o prototype? with
      | some h' =>
        refine ⟨h', ?_, Heap.relinked_of_setPrototype? ho hset⟩
        rw [Action.link_eq]
        dsimp only
        rw [hset]
      | none =>
        cases prototype? with
        | none => simp [Heap.setPrototype?] at hset
        | some p =>
          -- a refusal means that the chain of the new prototype leads to the object
          have hpath := hgrounded.mem_chain.1 (Heap.setPrototype?_eq_none.1 hset)
          exact absurd ⟨p, rfl, hpath⟩ hfree
  · intro o key
    exact ⟨hgrounded.get_eq o key, hgrounded.has_eq o key, hgrounded.isWritable_eq o key⟩
  · intro o f prototype data trace hf hprototype
    exact hgrounded.isInstanceOf_eq hf hprototype trace

/-- An object with a prototype is refused as the prototype of its prototype. -/
theorem prototype_chains_finite_pair :
    let base : Object := .ofKind .ordinary
    let derived : Object := { base with prototype? := some ⟨0⟩ }
    let h : Heap := ((Heap.empty.add base).2.add derived).2
    h.Reachable ∧ Action.link ⟨0⟩ (some ⟨1⟩) ⟨h, []⟩ = .ok false ⟨h, []⟩ := by
  intro base derived h
  have hh : h.Reachable := by
    refine .add derived (.add base .empty fun p hp => nomatch hp) fun p hp => ?_
    cases hp
    decide
  obtain ⟨_, _, hlink, _⟩ := prototype_chains_finite hh
  have hpath : Relation.ReflTransGen h.HasPrototype ⟨1⟩ ⟨0⟩ := .single rfl
  exact ⟨hh, (hlink ⟨0⟩ (some ⟨1⟩) [] (by decide)).1 ⟨⟨1⟩, rfl, hpath⟩⟩

end ScriptOps
