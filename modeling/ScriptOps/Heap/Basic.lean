import ScriptOps.Object

/-!
# The heap

The heap stores the objects by their identities. Properties are read along the chain of prototypes:
the nearest object that has a key supplies its value, and the nearest that has an opinion decides
whether it can be assigned. A prototype is set only if the chain stays free of circles.
-/

namespace ScriptOps

/-- The objects, by identity. -/
structure Heap where
  /-- The objects, in order of creation. -/
  objects : Array Object
deriving Inhabited

namespace Heap

/-- The heap without objects. -/
def empty : Heap := ⟨#[]⟩

/-- The number of objects. -/
def size (h : Heap) : Nat :=
  h.objects.size

/-- The object of an identity. An identity without an object reads as an empty ordinary object. -/
def object (h : Heap) (id : ObjectId) : Object :=
  h.objects.getD id.index (.ofKind .ordinary)

/-- The kind of an object. -/
def kind (h : Heap) (id : ObjectId) : ObjectKind :=
  (h.object id).kind

/-- Replaces an object. -/
def update (h : Heap) (id : ObjectId) (o : Object) : Heap :=
  ⟨h.objects.setIfInBounds id.index o⟩

/-- Adds an object. -/
def add (h : Heap) (o : Object) : ObjectId × Heap :=
  (⟨h.size⟩, ⟨h.objects.push o⟩)

/-- Adds an object of a kind. -/
def create (h : Heap) (kind : ObjectKind) : ObjectId × Heap :=
  h.add (.ofKind kind)

/-- Adds a function. A plain function and a class come with a fresh object as their property
`prototype`, which is read-only for a class. -/
def createFunction (h : Heap) (name : String) (kind : FunctionKind) : ObjectId × Heap :=
  let f := Object.ofKind (.function ⟨name, kind, none⟩)
  match kind with
  | .arrow => h.add f
  | .function | .classLiteral =>
    let (prototype, h) := h.create .ordinary
    h.add (f.define "prototype" ⟨.object prototype, kind == .function⟩)

/-- Replacing an object creates none. -/
theorem size_update (h : Heap) (id : ObjectId) (o : Object) : (h.update id o).size = h.size := by
  simp [size, update]

/-- A replaced object is read back. -/
theorem object_update_self (h : Heap) (id : ObjectId) (o : Object) (hid : id.index < h.size) :
    (h.update id o).object id = o := by
  have hid' : id.index < h.objects.size := hid
  simp [object, update, hid']

/-- Replacing an object leaves the others alone. -/
theorem object_update_of_ne (h : Heap) {id other : ObjectId} (hne : other ≠ id) (o : Object) :
    (h.update id o).object other = h.object other := by
  have hi : id.index ≠ other.index := fun he => hne (by cases id; cases other; simp_all)
  simp [object, update, Array.getElem?_setIfInBounds_ne hi]

/-- An added object is read back by its identity. -/
theorem object_add (h : Heap) (o : Object) : (h.add o).2.object (h.add o).1 = o := by
  simp [object, add, size]

/-- Adding an object leaves the earlier ones alone. -/
theorem object_add_of_lt (h : Heap) (o : Object) {id : ObjectId} (hid : id.index < h.size) :
    (h.add o).2.object id = h.object id := by
  have hid' : id.index < h.objects.size := hid
  simp [object, add, Array.getElem?_push_lt hid', Array.getElem?_eq_getElem hid']

/-- An identity past the objects has no object. -/
theorem object_of_ge (h : Heap) {id : ObjectId} (hid : h.size ≤ id.index) :
    h.object id = .ofKind .ordinary := by
  have hget : h.objects[id.index]? = none := Array.getElem?_eq_none hid
  simp [object, hget]

/-- Adding an object makes the heap one larger. -/
theorem size_add (h : Heap) (o : Object) : (h.add o).2.size = h.size + 1 := by
  simp [add, size]

/-- The identities past an added object have no object yet. -/
theorem object_add_of_gt (h : Heap) (o : Object) {id : ObjectId} (hid : h.size < id.index) :
    (h.add o).2.object id = .ofKind .ordinary :=
  object_of_ge _ (h.size_add o ▸ hid)

/-! ### Prototype chains -/

/-- The first `fuel` objects of the chain that starts at an object. -/
def chainUpTo (h : Heap) : Nat → ObjectId → List ObjectId
  | 0, _ => []
  | fuel + 1, id => id :: match (h.object id).prototype? with
    | some next => h.chainUpTo fuel next
    | none => []

/-- An object and the prototypes above it, nearest first. A chain visits each object once, so the
size of the heap bounds it. -/
def chain (h : Heap) (id : ObjectId) : List ObjectId :=
  h.chainUpTo (h.size + 1) id

/-- Sets the prototype of an object, unless this would close a circle. -/
def setPrototype? (h : Heap) (id : ObjectId) (prototype? : Option ObjectId) : Option Heap :=
  let above := match prototype? with
    | some p => h.chain p
    | none => []
  if id ∈ above then none else some (h.update id { h.object id with prototype? })

/-! ### Properties -/

/-- The value of a property, own or inherited, and undefined if there is none. -/
def get (h : Heap) (id : ObjectId) (key : String) : Value :=
  ((h.chain id).findSome? fun o => (h.object o).getOwn? key).getD .undefined

/-- Whether a property exists, own or inherited. -/
def has (h : Heap) (id : ObjectId) (key : String) : Bool :=
  (h.chain id).any fun o => (h.object o).hasOwn key

/-- Whether assignments to a property are accepted: the nearest object that says so decides. -/
def isWritable (h : Heap) (id : ObjectId) (key : String) : Bool :=
  ((h.chain id).findSome? fun o => (h.object o).writable? key).getD true

/-- Assigns to a property; `none` is a refusal. -/
def set? (h : Heap) (id : ObjectId) (key : String) (v : Value) : Option Heap :=
  if h.isWritable id key then ((h.object id).assigned? key v).map (h.update id) else none

/-- Puts a property, whatever was there. -/
def define (h : Heap) (id : ObjectId) (key : String) (p : Property) : Heap :=
  h.update id ((h.object id).define key p)

/-! ### Invariants of all objects -/

section

variable {h h' : Heap} {id : ObjectId} {P : ObjectId → Object → Prop}

/-- An addition concerns the new object only. -/
theorem forall_object_add (hh : ∀ id, P id (h.object id)) {o : Object} (ho : P ⟨h.size⟩ o) :
    ∀ id, P id ((h.add o).2.object id) := by
  intro ⟨i⟩
  rcases Nat.lt_trichotomy i h.size with hlt | rfl | hgt
  · rw [object_add_of_lt h o hlt]
    exact hh _
  · exact (object_add h o).symm ▸ ho
  · rw [object_add_of_gt h o hgt, ← object_of_ge h (Nat.le_of_lt hgt)]
    exact hh _

/-- An update concerns one object only. -/
theorem forall_object_update (hh : ∀ id, P id (h.object id)) {o : Object} (ho : P id o) :
    ∀ other, P other ((h.update id o).object other) := by
  intro other
  by_cases hother : other = id
  · subst hother
    by_cases hlt : other.index < h.size
    · rw [object_update_self h other o hlt]
      exact ho
    · have hge : h.size ≤ other.index := Nat.le_of_not_lt hlt
      rw [object_of_ge _ (h.size_update other o ▸ hge), ← object_of_ge h hge]
      exact hh other
  · rw [object_update_of_ne h hother]
    exact hh other

/-- So does an assignment. -/
theorem forall_object_set? {key : String} {v : Value} (hh : ∀ id, P id (h.object id))
    (hset : h.set? id key v = some h')
    (ho : ∀ o, (h.object id).assigned? key v = some o → P id o) :
    ∀ other, P other (h'.object other) := by
  unfold set? at hset
  obtain ⟨-, hmap⟩ := Option.ite_none_right_eq_some.1 hset
  obtain ⟨o, hassigned, rfl⟩ := Option.map_eq_some_iff.1 hmap
  exact forall_object_update hh (ho o hassigned)

/-- So does a new prototype. -/
theorem forall_object_setPrototype? {prototype? : Option ObjectId} (hh : ∀ id, P id (h.object id))
    (hset : h.setPrototype? id prototype? = some h')
    (ho : P id { h.object id with prototype? }) : ∀ other, P other (h'.object other) := by
  unfold setPrototype? at hset
  obtain ⟨-, hupdate⟩ := Option.ite_none_left_eq_some.1 hset
  obtain rfl := Option.some.inj hupdate
  exact forall_object_update hh ho

end

/-- An assignment creates no object. -/
theorem size_set? {h h' : Heap} {id : ObjectId} {key : String} {v : Value}
    (hset : h.set? id key v = some h') : h'.size = h.size := by
  unfold set? at hset
  obtain ⟨-, hmap⟩ := Option.ite_none_right_eq_some.1 hset
  obtain ⟨o, -, rfl⟩ := Option.map_eq_some_iff.1 hmap
  exact h.size_update id o

/-- Neither does a new prototype. -/
theorem size_setPrototype? {h h' : Heap} {id : ObjectId} {prototype? : Option ObjectId}
    (hset : h.setPrototype? id prototype? = some h') : h'.size = h.size := by
  unfold setPrototype? at hset
  obtain ⟨-, hupdate⟩ := Option.ite_none_left_eq_some.1 hset
  obtain rfl := Option.some.inj hupdate
  exact h.size_update id _

/-! ### Functions -/

/-- Whether an object can be called. -/
def isCallable (h : Heap) (id : ObjectId) : Bool :=
  (h.kind id).function?.isSome

/-- Names a function that has no name yet. -/
def nameFunction (h : Heap) (id : ObjectId) (name : String) : Heap :=
  let o := h.object id
  match o.kind with
  | .function f =>
    if f.name.isEmpty then h.update id { o with kind := .function { f with name } } else h
  | _ => h

/-- The host object behind a value. -/
def hostObject? (h : Heap) : Value → Option HostObject
  | .object id => (h.kind id).host?
  | .primitive _ => none

end Heap

end ScriptOps
