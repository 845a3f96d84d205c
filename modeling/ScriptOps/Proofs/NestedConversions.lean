import Mathlib
import ScriptOps.Machine
import ScriptOps.Proofs.Agreement
import ScriptOps.Proofs.WorldEffects

/-!
# Nested conversions come to an end

The text of an array is made of the texts of its elements, so conversions nest as arrays do. They
end if the objects have ranks such that every array has a higher one than its elements; the rank
then bounds how deep a conversion nests. There are such ranks exactly if no array contains itself,
directly or through others.

Callbacks run between the conversions of two elements, and they may create objects and write. They
have to keep to the ranks; a new object takes the next identity, so a new array may hold whatever
has a lower rank than that. That no array contains itself at any moment does not suffice: of two
arrays each may be put into the other while the other is converted, and be taken out again, without
an end.

An array that leads back to itself by first elements is converted without an end whatever the depth.
-/

namespace ScriptOps

open Eval

/-! ### Ranks -/

/-- A primitive, or an object of a rank below the bound. -/
def Value.RankBelow (rank : ObjectId → Nat) (bound : Nat) : Value → Prop
  | .primitive _ => True
  | .object id => rank id < bound

/-- The elements have ranks below the bound, if it is the kind of an array. -/
def ObjectKind.RanksBelow (rank : ObjectId → Nat) (bound : Nat) (kind : ObjectKind) : Prop :=
  ∀ v, kind.Holds v → v.RankBelow rank bound

namespace Heap

/-- The array stores the object as an element. -/
def Contains (h : Heap) (array element : ObjectId) : Prop :=
  (h.kind array).Holds (.object element)

/-- Every array has a higher rank than the objects that it contains. -/
def Ranked (rank : ObjectId → Nat) (h : Heap) : Prop :=
  ∀ id, (h.kind id).RanksBelow rank (rank id)

variable {h h' : Heap} {rank : ObjectId → Nat} {id array element : ObjectId}

/-- An element has a lower rank than the array that contains it. -/
theorem Ranked.lt (hh : h.Ranked rank) (hcontains : h.Contains array element) :
    rank element < rank array :=
  hh array _ hcontains

/-- With ranks no array contains itself. -/
theorem Ranked.acyclic (hh : h.Ranked rank) (id : ObjectId) :
    ¬Relation.TransGen h.Contains id id := by
  have hlt {a b : ObjectId} (hab : Relation.TransGen h.Contains a b) : rank b < rank a := by
    induction hab with
    | single hcontains => exact hh.lt hcontains
    | tail _ hcontains ih => exact (hh.lt hcontains).trans ih
  exact fun hcircle => (hlt hcircle).false

/-- Only objects of the heap contain anything. -/
theorem lt_size_of_contains (hcontains : h.Contains array element) : array.index < h.size := by
  by_contra hsize
  obtain ⟨e, he, -⟩ := hcontains
  rw [kind, h.object_of_ge (Nat.le_of_not_lt hsize)] at he
  nomatch he

open Classical in
/-- The number of objects that an object leads to through arrays, itself included. -/
noncomputable def reach (h : Heap) (id : ObjectId) : Nat :=
  ((Finset.range h.size).filter fun i => Relation.ReflTransGen h.Contains id ⟨i⟩).card

/-- No object leads to more objects than there are. -/
theorem reach_le_size (h : Heap) (id : ObjectId) : h.reach id ≤ h.size := by
  classical
  calc h.reach id ≤ (Finset.range h.size).card := Finset.card_filter_le _ _
    _ = h.size := Finset.card_range _

/-- An array leads to itself, and its elements do not lead back. -/
theorem reach_lt_reach (hacyclic : ∀ id, ¬Relation.TransGen h.Contains id id)
    (hcontains : h.Contains array element) : h.reach element < h.reach array := by
  classical
  refine Finset.card_lt_card ((Finset.ssubset_iff_of_subset ?_).2 ⟨array.index, ?_, ?_⟩)
  · intro i hi
    obtain ⟨hsize, hleads⟩ := Finset.mem_filter.1 hi
    exact Finset.mem_filter.2 ⟨hsize, .head hcontains hleads⟩
  · exact Finset.mem_filter.2 ⟨Finset.mem_range.2 (lt_size_of_contains hcontains), .refl⟩
  · intro hback
    have hleads : Relation.ReflTransGen h.Contains element array := (Finset.mem_filter.1 hback).2
    exact hacyclic array (.head' hcontains hleads)

/-- There are ranks exactly if no array contains itself, and then the number of objects bounds
them. -/
theorem acyclic_iff_exists_ranked : (∀ id, ¬Relation.TransGen h.Contains id id) ↔
    ∃ rank, h.Ranked rank ∧ ∀ id, rank id ≤ h.size := by
  constructor
  · intro hacyclic
    refine ⟨h.reach, fun array v hholds => ?_, h.reach_le_size⟩
    cases v with
    | primitive p => trivial
    | object element => exact reach_lt_reach hacyclic hholds
  · rintro ⟨rank, hranked, -⟩
    exact hranked.acyclic

/-! ### What keeps to ranks -/

namespace Ranked

/-- The heap without objects keeps to all ranks. -/
theorem empty (rank : ObjectId → Nat) : Ranked rank .empty := by
  rintro id v ⟨e, he, -⟩
  nomatch he

/-- A new object keeps to the ranks if its elements do. -/
theorem add (hh : h.Ranked rank) {o : Object} (ho : o.kind.RanksBelow rank (rank ⟨h.size⟩)) :
    (h.add o).2.Ranked rank :=
  forall_object_add (P := fun id o => o.kind.RanksBelow rank (rank id)) hh ho

/-- An assignment stores a value in the elements only under an index. -/
theorem set {key : String} {v : Value} (hh : h.Ranked rank)
    (hv : (arrayIndexOfKey? key).isSome → v.RankBelow rank (rank id))
    (hset : h.set? id key v = some h') : h'.Ranked rank := by
  refine forall_object_set? (P := fun id o => o.kind.RanksBelow rank (rank id)) hh hset ?_
  intro o ho
  have hid := hh id
  rcases Object.assigned?_cases ho with ⟨e, index, hkind, hindex, rfl⟩ |
    ⟨e, length, hkind, -, -, rfl⟩ | ⟨-, rfl⟩
  · rintro w ⟨e', he', hstores⟩
    obtain rfl := Option.some.inj he'
    rcases hstores.of_set with rfl | hold | rfl
    · exact hv (by rw [hindex]; rfl)
    · exact hid w ⟨e, by rw [kind, hkind]; rfl, hold⟩
    · trivial
  · rintro w ⟨e', he', hstores⟩
    obtain rfl := Option.some.inj he'
    exact hid w ⟨e, by rw [kind, hkind]; rfl, hstores.of_setLength⟩
  · exact hid

/-- A new prototype stores no element. -/
theorem setPrototype {prototype? : Option ObjectId} (hh : h.Ranked rank)
    (hset : h.setPrototype? id prototype? = some h') : h'.Ranked rank :=
  forall_object_setPrototype? (P := fun id o => o.kind.RanksBelow rank (rank id)) hh hset (hh id)

end Ranked

end Heap

/-- The heap of a world keeps to the ranks, and it has at least so many objects. -/
structure World.Ranked (rank : ObjectId → Nat) (size : Nat) (w : World) : Prop where
  heap : w.heap.Ranked rank
  size_le : size ≤ w.heap.size

namespace World.Ranked

variable {rank : ObjectId → Nat} {size : Nat} {w : World}

/-- What is observed does not matter for the ranks. -/
theorem observe (hw : w.Ranked rank size) (e : Event) :
    World.Ranked rank size { w with trace := e :: w.trace } :=
  ⟨hw.heap, hw.size_le⟩

/-- An assignment keeps to the ranks if an element that it writes has a lower rank than the array.
It creates no object. -/
theorem assign (hw : w.Ranked rank size) {id : ObjectId} {key : String} {v : Value}
    (hv : (arrayIndexOfKey? key).isSome → v.RankBelow rank (rank id)) :
    ∃ accepted w', Action.assign id key v w = .ok accepted w' ∧ w'.Ranked rank size ∧
      w'.heap.size = w.heap.size := by
  have hassign := Action.assign_eq id key v w
  cases hset : w.heap.set? id key v with
  | some h =>
    rw [hset] at hassign
    have hsize := Heap.size_set? hset
    exact ⟨true, _, hassign, ⟨hw.heap.set hv hset, hsize ▸ hw.size_le⟩, hsize⟩
  | none =>
    rw [hset] at hassign
    exact ⟨false, w, hassign, hw, rfl⟩

/-- A new prototype keeps to the ranks, and creates no object. -/
theorem link (hw : w.Ranked rank size) (id : ObjectId) (prototype? : Option ObjectId) :
    ∃ accepted w', Action.link id prototype? w = .ok accepted w' ∧ w'.Ranked rank size ∧
      w'.heap.size = w.heap.size := by
  have hlink := Action.link_eq id prototype? w
  cases hset : w.heap.setPrototype? id prototype? with
  | some h =>
    rw [hset] at hlink
    have hsize := Heap.size_setPrototype? hset
    exact ⟨true, _, hlink, ⟨hw.heap.setPrototype hset, hsize ▸ hw.size_le⟩, hsize⟩
  | none =>
    rw [hset] at hlink
    exact ⟨false, w, hlink, hw, rfl⟩

end World.Ranked

/-- The heap of the machine's world keeps to the ranks. -/
def Machine.Ranked (rank : ObjectId → Nat) (size : Nat) (m : Machine) : Prop :=
  m.world.Ranked rank size

/-- The steps of the reaction keep to the ranks in a heap of so many objects: what they store in
arrays has a lower rank than the array, and they do not fail as conversions do that nest too
deeply. -/
def Reaction.KeepsRanks (rank : ObjectId → Nat) (size : Nat) : Reaction → Prop
  | answer _ => True
  | fail e => e.cause ≠ .nestedTooDeeply
  | write id key v next =>
    ((arrayIndexOfKey? key).isSome → v.RankBelow rank (rank id)) ∧
      ∀ accepted, (next accepted).KeepsRanks rank size
  | create kind next =>
    kind.RanksBelow rank (rank ⟨size⟩) ∧ (next ⟨size⟩).KeepsRanks rank (size + 1)
  | link _ _ next => ∀ accepted, (next accepted).KeepsRanks rank size

/-- The callbacks of the host keep to the ranks, in heaps of at least so many objects. -/
def Host.KeepsRanks (rank : ObjectId → Nat) (size : Nat) (host : Host) : Prop :=
  ∀ (c : Callback) (w : World), w.Ranked rank size →
    (host.react c w).KeepsRanks rank w.heap.size

/-! ### Effects that settle -/

/-- A run kept to an invariant of the states, and did not fail for nesting too deeply. -/
inductive Settled {σ α : Type} (I : σ → Prop) : EStateM.Result Error σ α → Prop where
  | ok {a : α} {s : σ} : I s → Settled I (.ok a s)
  | error {e : Error} {s : σ} : I s → e.cause ≠ .nestedTooDeeply → Settled I (.error e s)

/-- An effect keeps to an invariant, and does not fail for nesting too deeply. -/
def Settles {σ : Type} (I : σ → Prop) ⦃α : Type⦄ (x : EStateM Error σ α) : Prop :=
  ∀ s, I s → Settled I (x s)

namespace Settles

section

variable {σ α β : Type} {I : σ → Prop}

/-- A value keeps to every invariant. -/
theorem pure (a : α) : Settles I (pure a : EStateM Error σ α) :=
  fun _ hs => .ok hs

/-- A sequence settles if its parts do. -/
theorem bind {x : EStateM Error σ α} {f : α → EStateM Error σ β} (hx : Settles I x)
    (hf : ∀ a, Settles I (f a)) : Settles I (x >>= f) := by
  intro s hs
  have hrun := hx s hs
  cases hresult : x s with
  | ok a t =>
    rw [hresult] at hrun
    rw [bind_of_ok hresult]
    cases hrun with
    | ok ht => exact hf a t ht
  | error e t =>
    rw [hresult] at hrun
    rw [bind_of_error hresult]
    cases hrun with
    | error ht he => exact .error ht he

/-- An effect that looks at the state settles if it does for each state of the invariant. -/
theorem look {f : σ → EStateM Error σ α} (hf : ∀ s, I s → Settles I (f s)) :
    Settles I (get >>= f) :=
  fun s hs => hf s hs s hs

end

variable {rank : ObjectId → Nat} {size : Nat} {host : Host} {s : Settings} {v l r : Value}

/-! ### Conversions -/

/-- Conversions and operators keep to the ranks if the host does. -/
theorem basis (hask : ∀ c, Settles (World.Ranked rank size) (host.ask c)) :
    Action.Basis host (Heap.Ranked rank) (Settles (World.Ranked rank size)) where
  pure := pure
  bind := bind
  fail hc _ hw := .error hw hc
  look hf w hw := hf w.heap hw.heap w hw
  compared _ _ _ hw := .ok (hw.observe _)
  ask := hask

/-- The rank of an object bounds how deep its conversion nests. -/
theorem objectPrimitive (hask : ∀ c, Settles (World.Ranked rank size) (host.ask c)) {depth : Nat}
    {id : ObjectId} (hid : rank id < depth) (hint : Hint) :
    Settles (World.Ranked rank size) (Coercion.objectPrimitive host depth hint id) := by
  induction depth generalizing hint id with
  | zero => exact absurd hid (Nat.not_lt_zero _)
  | succ depth ih =>
    refine (basis hask).objectPrimitive_succ (fun h hh element hholds => ?_) hint
    have hlt : rank element < rank id := hh id _ hholds
    exact ih (Nat.lt_of_lt_of_le hlt (Nat.le_of_lt_succ hid)) _

/-- A value whose rank is below the depth of the host is converted without nesting too deeply. -/
theorem toPrimitive (hask : ∀ c, Settles (World.Ranked rank size) (host.ask c))
    (hv : v.RankBelow rank host.depth) (hint : Hint) :
    Settles (World.Ranked rank size) (host.toPrimitive hint v) := by
  cases v with
  | primitive p => exact pure p
  | object id => exact objectPrimitive hask hv hint

/-! ### Operators -/

/-- An effect on the world settles within the machine. -/
theorem lift {α : Type} {x : Action α} (hx : Settles (World.Ranked rank size) x) :
    Settles (Machine.Ranked rank size) (Eval.lift x) := by
  intro m hm
  have hrun := hx m.world hm
  unfold Eval.lift
  cases hresult : x m.world with
  | ok a w =>
    rw [hresult] at hrun
    cases hrun with
    | ok hw => exact .ok hw
  | error e w =>
    rw [hresult] at hrun
    cases hrun with
    | error hw he => exact .error hw he

/-- The lookup of a method changes nothing that ranks speak of. -/
theorem lookupMethod (op : BinaryOp) (l r : Value) :
    Settles (Machine.Ranked rank size) (Eval.lookupMethod op l r) := by
  refine look fun m hm => ?_
  split
  · have hset (resolver? : Option Resolver) :
        Settles (Machine.Ranked rank size) (set { m with resolver? } : Eval PUnit) :=
      fun _ _ => .ok hm
    exact bind (hset _) fun _ => pure _
  · exact pure _

/-- An operator may call a method, which converts the operands for its parameters. -/
theorem operate (hask : ∀ c, Settles (World.Ranked rank size) (s.host.ask c))
    (hl : l.RankBelow rank s.host.depth) (hr : r.RankBelow rank s.host.depth) (op : BinaryOp) :
    Settles (Machine.Ranked rank size) (Eval.operate s op l r) := by
  have hbasis := basis hask
  have hplain := lift (hbasis.evaluate op (toPrimitive hask hl) (toPrimitive hask hr))
  have hdispatch : Settles (Machine.Ranked rank size) (Eval.dispatch? s op l r) := by
    refine bind (lookupMethod op l r) fun method? => ?_
    cases method? with
    | some method =>
      have hinvoke := lift (hbasis.invoke method (toPrimitive hask hl) (toPrimitive hask hr))
      exact bind (fun _ hm => .ok hm) fun _ => bind hinvoke fun _ => pure _
    | none => exact pure _
  unfold Eval.operate
  split
  · refine bind hdispatch fun overloaded? => ?_
    cases overloaded? with
    | some v => exact pure v
    | none => exact hplain
  · exact hplain

/-! ### Callbacks -/

/-- A reaction that keeps to the ranks in the heap as it is settles. The number of objects is told
along, since it is the identity of the next one. -/
theorem run {reaction : Reaction} {w : World} (hw : w.Ranked rank size)
    (hreaction : reaction.KeepsRanks rank w.heap.size) :
    Settled (World.Ranked rank size) (reaction.run w) := by
  induction reaction generalizing w with
  | answer v => exact .ok hw
  | fail e => exact .error hw hreaction
  | write id key v next ih =>
    obtain ⟨hv, hnext⟩ := hreaction
    obtain ⟨accepted, w', hassign, hw', hsize⟩ := hw.assign hv
    rw [Reaction.run, bind_of_ok hassign]
    exact ih accepted (hw'.observe (.wrote accepted)) (hsize ▸ hnext accepted)
  | create kind next ih =>
    obtain ⟨hkind, hnext⟩ := hreaction
    -- the new identity is the number of objects, and later steps speak of one object more
    have hsize := w.heap.size_add (.ofKind kind)
    have hw' : World.Ranked rank size { w with heap := (w.heap.create kind).2 } :=
      ⟨hw.heap.add hkind, hsize ▸ Nat.le_succ_of_le hw.size_le⟩
    exact ih ⟨w.heap.size⟩ hw' (hsize ▸ hnext)
  | link id prototype? next ih =>
    obtain ⟨accepted, w', hlink, hw', hsize⟩ := hw.link id prototype?
    rw [Reaction.run, bind_of_ok hlink]
    exact ih accepted hw' (hsize ▸ hreaction accepted)

/-- A callback settles if the host keeps to the ranks. -/
theorem ask (hhost : host.KeepsRanks rank size) (c : Callback) :
    Settles (World.Ranked rank size) (host.ask c) := by
  intro w hw
  exact run (hw.observe (.invoked c)) (hhost c w hw)

end Settles

/-- Conversions come to an end, and so do operators, overloaded or not, and the conversions of
computed keys, if arrays have higher ranks than their elements and callbacks keep to the ranks. New
objects are taken into account as they come, each with the next identity.
There are ranks exactly if no array contains itself, directly or through others, and then the number
of objects bounds them. -/
theorem conversions_end (s : Settings) (m : Machine) :
    (∀ rank : ObjectId → Nat, m.world.heap.Ranked rank →
      s.host.KeepsRanks rank m.world.heap.size →
      (∀ v : Value, v.RankBelow rank s.host.depth →
        (∀ hint, Settled (World.Ranked rank m.world.heap.size)
          (s.host.toPrimitive hint v m.world)) ∧
        Settled (World.Ranked rank m.world.heap.size) (s.host.toText v m.world) ∧
        Settled (World.Ranked rank m.world.heap.size) (s.host.toFloat v m.world) ∧
        Settled (World.Ranked rank m.world.heap.size) (s.host.toPropertyKey v m.world) ∧
        ∀ base, Settled (World.Ranked rank m.world.heap.size)
          (computedKey s.host base v m.world)) ∧
      ∀ l r : Value, l.RankBelow rank s.host.depth → r.RankBelow rank s.host.depth →
        ∀ op, Settled (Machine.Ranked rank m.world.heap.size) (operate s op l r m)) ∧
    ((∀ id, ¬Relation.TransGen m.world.heap.Contains id id) ↔
      ∃ rank, m.world.heap.Ranked rank ∧ ∀ id, rank id ≤ m.world.heap.size) := by
  refine ⟨fun rank hranked hhost => ?_, Heap.acyclic_iff_exists_ranked⟩
  have hworld : m.world.Ranked rank m.world.heap.size := ⟨hranked, Nat.le_refl _⟩
  have hask := Settles.ask hhost
  have hbasis := Settles.basis hask
  constructor
  · intro v hv
    have hprimitive := Settles.toPrimitive hask hv
    have htext := hbasis.toText hprimitive
    exact ⟨fun hint => hprimitive hint _ hworld, htext _ hworld,
      hbasis.toFloat hprimitive _ hworld, htext _ hworld,
      fun base => hbasis.computedKey base hprimitive _ hworld⟩
  · intro l r hl hr op
    exact Settles.operate hask hl hr op m hworld

open Primitive in
/-- The text of `[[1], null]`, in a host whose callbacks answer with new arrays that hold the array
`[1]`. The identities are ranks, since the new arrays come later. -/
theorem conversions_end_nested :
    let h := ((Heap.empty.create (.array (.ofList [(int 1 : Value)]))).2.create
      (.array (.ofList [.object ⟨0⟩, .null]))).2
    let react : Reaction := .create (.array (.ofList [.object ⟨0⟩])) fun id => .answer (.object id)
    let host : Host := ⟨fun _ _ => react, fun _ => false, fun _ => none, 2⟩
    h.Ranked ObjectId.index ∧ host.KeepsRanks ObjectId.index h.size ∧
      Settled (World.Ranked ObjectId.index h.size) (host.toText (.object ⟨1⟩) ⟨h, []⟩) := by
  intro h react host
  have hranked : h.Ranked ObjectId.index := by
    refine ((Heap.Ranked.empty _).add ?_).add ?_
    · rintro v ⟨e, he, hstores⟩
      obtain rfl := Option.some.inj he
      obtain rfl := List.mem_singleton.1 (Elements.stores_ofList.1 hstores)
      trivial
    · rintro v ⟨e, he, hstores⟩
      obtain rfl := Option.some.inj he
      rcases List.mem_pair.1 (Elements.stores_ofList.1 hstores) with rfl | rfl
      · exact Nat.zero_lt_one
      · trivial
  have hhost : host.KeepsRanks ObjectId.index h.size := by
    intro c w hw
    refine ⟨?_, trivial⟩
    rintro v ⟨e, he, hstores⟩
    obtain rfl := Option.some.inj he
    obtain rfl := List.mem_singleton.1 (Elements.stores_ofList.1 hstores)
    have hsize : 2 ≤ w.heap.size := hw.size_le
    exact Nat.lt_of_lt_of_le Nat.zero_lt_two hsize
  obtain ⟨hvalues, -⟩ := (conversions_end ⟨host, true, .elementwise⟩
    (Machine.start ⟨h, []⟩ none .empty)).1 _ hranked hhost
  exact ⟨hranked, hhost, (hvalues (.object ⟨1⟩) (show 1 < 2 by decide)).2.1⟩

/-! ### Circles -/

/-- Arrays without a method `toString`, each with a further one of them as its first element. -/
structure Heap.Circles (h : Heap) (S : ObjectId → Prop) : Prop where
  noMethod : ∀ id, S id → h.has id "toString" = false
  first : ∀ id, S id → ∃ e next, h.kind id = .array e ∧ 0 < e.length ∧
    e.length ≤ Coercion.maxTextLength ∧ e.get? 0 = some (.object next) ∧ S next

/-- A join fails where the text of an element fails. -/
theorem Coercion.joinFrom_error {text : Value → Action String} {array : ObjectId} {w w' : World}
    {index : Nat} {v : Value} {e : Error} (hv : v.isNullish = false)
    (hget : (w.heap.kind array).elements?.bind (·.get? index) = some v)
    (htext : text v w = .error e w') (count : Nat) (joined : String) :
    Coercion.joinFrom text array (count + 1) index joined w = .error e w' := by
  have hheap : (Action.heap : Action Heap) w = .ok w.heap w := rfl
  have helement : ((w.heap.kind array).elements?.bind (·.get? index)).filter (!·.isNullish) =
      some v := by
    simp [hget, hv]
  refine (bind_of_ok hheap).trans ?_
  dsimp only
  rw [helement]
  exact bind_of_error htext

/-- They are converted without an end: every depth is exhausted before the first text is there. -/
theorem Heap.Circles.objectPrimitive {h : Heap} {S : ObjectId → Prop} (hcircles : h.Circles S)
    (host : Host) (depth : Nat) {id : ObjectId} (hid : S id) (trace : List Event) :
    Coercion.objectPrimitive host depth .string id ⟨h, trace⟩ =
      .error (.ofCause .nestedTooDeeply) ⟨h, trace⟩ := by
  induction depth generalizing id with
  | zero => rfl
  | succ depth ih =>
    obtain ⟨e, next, hkind, hpos, hle, hget, hnext⟩ := hcircles.first id hid
    obtain ⟨count, hcount⟩ : ∃ count, e.length = count + 1 := ⟨e.length - 1, by omega⟩
    have hheap : (Action.heap : Action Heap) ⟨h, trace⟩ = .ok h ⟨h, trace⟩ := rfl
    refine (bind_of_ok hheap).trans ?_
    rw [hkind]
    -- the method `toString` comes first, and nothing replaces the one of arrays
    refine bind_of_error ((bind_of_ok hheap).trans ?_)
    rw [if_neg (by rw [ConversionMethod.key, hcircles.noMethod id hid]; exact Bool.false_ne_true)]
    rw [map_eq_pure_bind]
    refine bind_of_error ((bind_of_ok hheap).trans ?_)
    rw [hkind]
    refine bind_of_error ?_
    rw [Coercion.join, if_neg (Nat.not_lt_of_le hle), hcount]
    have hnullish : (Value.object next).isNullish = false := rfl
    refine Coercion.joinFrom_error hnullish ?_ (bind_of_error (ih hnext)) count ""
    rw [hkind]
    exact hget

/-- An array that is its own first element has no text, whatever the host. -/
theorem conversions_end_fails_circular :
    ∃ h, (Heap.empty.create (.array (.ofList []))).2.set? ⟨0⟩ "0" (.object ⟨0⟩) = some h ∧
      ∀ host : Host, host.toText (.object ⟨0⟩) ⟨h, []⟩ =
        .error (.ofCause .nestedTooDeeply) ⟨h, []⟩ := by
  let e : Elements := ⟨#[.object ⟨0⟩], {}, 1⟩
  let h : Heap := ⟨#[.ofKind (.array e)]⟩
  have hcircles : h.Circles (· = ⟨0⟩) := by
    constructor
    · rintro id rfl
      cbv
    · rintro id rfl
      exact ⟨e, ⟨0⟩, rfl, by decide, by decide, rfl, rfl⟩
  refine ⟨h, by cbv, fun host => ?_⟩
  exact bind_of_error (hcircles.objectPrimitive host host.depth rfl [])

end ScriptOps
