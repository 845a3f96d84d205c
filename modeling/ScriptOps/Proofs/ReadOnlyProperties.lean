import ScriptOps.Proofs.HeapEvolution
import ScriptOps.Proofs.PropertyRefusals

/-!
# Read-only properties stay as they are

A read-only property refuses the assignments to its own object, and to every object whose nearest
property of the key it is. So no step on the heap changes it: an assignment goes to another key or
to another object, elements and lengths of an array are kept apart from its explicit properties, and
prototypes are no properties. By the evolution of heaps it holds its value through any run, and
through any sequence of assignments, links and runs. Only a definition replaces it.
-/

namespace ScriptOps

/-! ### Objects -/

namespace Object

variable {o o' : Object} {key : String} {v : Value}

/-- The object holds a value in a property of its own that is read-only: an explicit one, or the
name of a function that has got its name. -/
def Fixes (o : Object) (key : String) (v : Value) : Prop :=
  o.properties.get? key = some ⟨v, false⟩ ∨
    o.properties.get? key = none ∧
      ∃ f, o.kind = .function f ∧ f.name ≠ "" ∧ key = "name" ∧ v = .str f.name

/-- The second object holds what the first one does. -/
def KeepsFixed (o o' : Object) : Prop :=
  ∀ key v, o.Fixes key v → o'.Fixes key v

/-- A read-only definition. -/
theorem fixes_define (o : Object) (key : String) (v : Value) :
    (o.define key ⟨v, false⟩).Fixes key v :=
  .inl (o.properties.get?_insert_self key _)

namespace Fixes

/-- A property that is fixed reads as its value. -/
theorem getOwn?_eq (h : o.Fixes key v) : o.getOwn? key = some v := by
  rcases h with hproperty | ⟨hnone, f, hkind, -, rfl, rfl⟩
  · exact getOwn?_of_get? hproperty
  · rw [getOwn?_of_get?_eq_none hnone, hkind]
    rfl

/-- A property that is fixed is read-only. -/
theorem isReadOnly (h : o.Fixes key v) : o.IsReadOnly key := by
  rcases h with hproperty | ⟨hnone, f, hkind, -, hkey, -⟩
  · exact .inl ⟨v, hproperty⟩
  · exact .inr ⟨hnone, ⟨f, hkind⟩, hkey⟩

/-- Assignments to other keys leave the property alone. -/
theorem assigned? {other : String} {w : Value} (h : o.Fixes key v)
    (hassigned : o.assigned? other w = some o') (hkey : key ≠ other) : o'.Fixes key v := by
  rcases assigned?_cases hassigned with ⟨e, index, hkind, -, rfl⟩ | ⟨e, length, hkind, -, -, rfl⟩ |
    ⟨-, rfl⟩
  · rcases h with hproperty | ⟨-, f, hfunction, -⟩
    · exact .inl hproperty
    · nomatch hkind.symm.trans hfunction
  · rcases h with hproperty | ⟨-, f, hfunction, -⟩
    · exact .inl hproperty
    · nomatch hkind.symm.trans hfunction
  · rwa [Fixes, define, Table.get?_insert_of_ne _ hkey]

end Fixes

end Object

/-! ### Heaps -/

namespace Heap

variable {h h' : Heap} {id other : ObjectId} {key : String} {v : Value}

/-- An object with a property is the nearest one that has it. -/
theorem nearest?_self (hown : (h.object id).hasOwn key = true) : h.nearest? id key = some id := by
  rw [nearest?, chain, chainUpTo, List.find?_cons, hown]

/-- Assignments whose nearest property is read-only are refused. -/
theorem set?_of_isReadOnly (hnearest : h.nearest? other key = some id)
    (hreadOnly : (h.object id).IsReadOnly key) : h.set? other key v = none := by
  have hwritable := isWritable_eq_false_iff.2 (.inl ⟨id, hnearest, hreadOnly⟩)
  rw [set?, hwritable]
  rfl

/-- The objects hold what they did. -/
def KeepsFixed (h h' : Heap) : Prop :=
  ∀ id, (h.object id).KeepsFixed (h'.object id)

/-- A heap that stays as it is keeps its fixed properties. -/
theorem keepsFixed_refl (h : Heap) : h.KeepsFixed h :=
  fun _ _ _ hfixes => hfixes

/-- An identity without an object holds nothing. -/
theorem not_fixes_of_ge (hid : h.size ≤ id.index) : ¬(h.object id).Fixes key v := by
  rw [object_of_ge h hid]
  rintro (hproperty | ⟨-, f, hkind, -⟩)
  · nomatch hproperty
  · nomatch hkind

/-- A new object leaves the fixed properties of the others. -/
theorem keepsFixed_add (h : Heap) (o : Object) : h.KeepsFixed (h.add o).2 := by
  have hnew : (h.object ⟨h.size⟩).KeepsFixed o :=
    fun key v hfixes => absurd hfixes (not_fixes_of_ge (Nat.le_refl h.size))
  exact forall_object_add (P := fun id o => (h.object id).KeepsFixed o) h.keepsFixed_refl hnew

/-- An assignment to the key of a read-only property was refused. -/
theorem keepsFixed_set? (hset : h.set? id key v = some h') : h.KeepsFixed h' := by
  have hassigned (o : Object) (ho : (h.object id).assigned? key v = some o) :
      (h.object id).KeepsFixed o := by
    intro other w hfixes
    by_cases hkey : other = key
    · subst hkey
      have hreadOnly := hfixes.isReadOnly
      nomatch (set?_of_isReadOnly (nearest?_self hreadOnly.hasOwn) hreadOnly).symm.trans hset
    · exact hfixes.assigned? ho hkey
  exact forall_object_set? (P := fun id o => (h.object id).KeepsFixed o) h.keepsFixed_refl hset
    hassigned

/-- A new prototype leaves the fixed properties, which are own ones. -/
theorem keepsFixed_setPrototype? {prototype? : Option ObjectId}
    (hset : h.setPrototype? id prototype? = some h') : h.KeepsFixed h' :=
  forall_object_setPrototype? (P := fun id o => (h.object id).KeepsFixed o) h.keepsFixed_refl hset
    fun _ _ hfixes => hfixes

/-- Only a function without a name gets one. -/
theorem keepsFixed_nameFunction (h : Heap) (id : ObjectId) (name : String) :
    h.KeepsFixed (h.nameFunction id name) := by
  unfold Heap.nameFunction
  dsimp only
  split
  · next f hkind =>
    split
    · next hempty =>
      refine forall_object_update (P := fun id o => (h.object id).KeepsFixed o) h.keepsFixed_refl ?_
      rintro key v (hproperty | ⟨-, f', hkind', hname, -⟩)
      · exact .inl hproperty
      · obtain rfl := ObjectKind.function.inj (hkind.symm.trans hkind')
        exact absurd (String.isEmpty_iff.1 hempty) hname
    · exact h.keepsFixed_refl
  · exact h.keepsFixed_refl

/-- Every step on the heap keeps the read-only properties. -/
theorem keepsFixed_evolution : Evolution KeepsFixed where
  refl := keepsFixed_refl
  trans hfirst hsecond id key v hfixes := hsecond id key v (hfirst id key v hfixes)
  add := keepsFixed_add
  set := keepsFixed_set?
  setPrototype := keepsFixed_setPrototype?
  nameFunction := keepsFixed_nameFunction

end Heap

/-! ### Sequences of assignments, links and runs -/

/-- Something that is done with a heap, from outside or by a program. -/
inductive Interaction where
  /-- Assigns to a property. -/
  | assign (id : ObjectId) (key : String) (v : Value)
  /-- Sets a prototype. -/
  | link (id : ObjectId) (prototype? : Option ObjectId)
  /-- Creates an object. -/
  | create (kind : ObjectKind)
  /-- Evaluates a tree in a machine, in the world at hand. -/
  | run (s : Settings) (n : Node) (m : Machine)

/-- The world after an interaction, whatever comes of it. -/
def World.interact (w : World) : Interaction → World
  | .assign id key v => leaves (Action.assign id key v) w
  | .link id prototype? => leaves (Action.link id prototype?) w
  | .create kind => leaves (Action.create kind) w
  | .run s n m => (leaves (evaluate s n) { m with world := w }).world

/-- One interaction leads to a related heap. -/
theorem Heap.Evolution.interact {R : Heap → Heap → Prop} (hR : Heap.Evolution R) (w : World)
    (i : Interaction) : R w.heap (w.interact i).heap := by
  cases i with
  | assign id key v => exact hR.assign id key v w
  | link id prototype? => exact hR.link id prototype? w
  | create kind => exact hR.create kind w
  | run s n m => exact hR.evaluate s n { m with world := w }

/-- So do many. -/
theorem Heap.Evolution.interactAll {R : Heap → Heap → Prop} (hR : Heap.Evolution R) (w : World)
    (is : List Interaction) : R w.heap (is.foldl World.interact w).heap := by
  induction is generalizing w with
  | nil => exact hR.refl _
  | cons i rest ih => exact hR.trans (hR.interact w i) (ih (w.interact i))

/-- Read-only properties are immutable. After any assignments, links, creations and runs, a property
that was read-only has its value, and whoever assigns to it is refused and changes nothing, on its
own object and on all objects whose nearest property of the key it is. -/
theorem read_only_properties_immutable {w : World} {id : ObjectId} {key : String} {v : Value}
    (hfixes : (w.heap.object id).Fixes key v) (is : List Interaction) :
    let w' := is.foldl World.interact w
    w'.heap.get id key = v ∧ (∀ v', Action.assign id key v' w' = .ok false w') ∧
      ∀ other, w'.heap.nearest? other key = some id →
        ∀ v', Action.assign other key v' w' = .ok false w' := by
  intro w'
  have hkept : (w'.heap.object id).Fixes key v :=
    Heap.keepsFixed_evolution.interactAll w is id key v hfixes
  have hrefused (other : ObjectId) (hnearest : w'.heap.nearest? other key = some id) (v' : Value) :
      Action.assign other key v' w' = .ok false w' := by
    rw [Action.assign_eq, Heap.set?_of_isReadOnly hnearest hkept.isReadOnly]
  exact ⟨Heap.get_of_getOwn? hkept.getOwn?_eq,
    hrefused id (Heap.nearest?_self hkept.isReadOnly.hasOwn), hrefused⟩

/-- The read-only property `0` of an array outlasts an assignment of the length and a strict program
that assigns to it, and refuses for an object below the array. -/
theorem read_only_properties_immutable_element :
    let array := (Heap.empty.create (.array (.ofList [.str "hidden"]))).2
    let w : World := ⟨array.define ⟨0⟩ "0" ⟨.str "fixed", false⟩, []⟩
    let s : Settings :=
      ⟨⟨fun _ _ => .answer .undefined, fun _ => false, fun _ => none, 0⟩, true, .elementwise⟩
    let env := Environment.empty.define "a" (.object ⟨0⟩) .mutable
    let target : Target := .member (.mk (.identifier "a" ⟨0, 1⟩) (.named "0") ⟨0, 4⟩)
    let n : Node := .assign .assign target (.constant .null) ⟨0, 11⟩
    let is : List Interaction := [.assign ⟨0⟩ "length" (Primitive.int 0), .create .ordinary,
      .link ⟨1⟩ (some ⟨0⟩), .run s n (.start w none env)]
    let w' := is.foldl World.interact w
    (w.heap.object ⟨0⟩).Fixes "0" (.str "fixed") ∧ w'.heap.get ⟨0⟩ "0" = .str "fixed" ∧
      w'.heap.nearest? ⟨1⟩ "0" = some ⟨0⟩ ∧ Action.assign ⟨1⟩ "0" .null w' = .ok false w' := by
  intro array w s env target n is w'
  have hfixes : (w.heap.object ⟨0⟩).Fixes "0" (.str "fixed") := Object.fixes_define _ _ _
  have hnearest : w'.heap.nearest? ⟨1⟩ "0" = some ⟨0⟩ := by
    dsimp only [w', is, n, target, env, s, w, array]
    cbv
  obtain ⟨hget, -, hrefused⟩ := read_only_properties_immutable hfixes is
  exact ⟨hfixes, hget, hnearest, hrefused ⟨1⟩ hnearest .null⟩

end ScriptOps
