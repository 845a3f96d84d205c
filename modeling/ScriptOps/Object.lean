import ScriptOps.Elements
import ScriptOps.FunctionKind
import ScriptOps.Text.Index

/-!
# Objects

An object has a kind, a table of explicit properties, and an optional prototype. The kind brings the
implicit properties: the elements and the length of an array, the name of a function, and what a
host object shows. An explicit property hides the implicit one of the same key.
-/

namespace ScriptOps

/-- A property that was given to an object. -/
structure Property where
  /-- The value. -/
  value : Value
  /-- Whether assignments may replace it. -/
  writable : Bool
deriving Inhabited

/-- The identity of a function that the host provides. -/
structure NativeId where
  /-- The number by which the host knows the function. -/
  index : Nat
deriving DecidableEq, Inhabited

/-- A function. -/
structure FunctionData where
  /-- The name, empty for an anonymous function. -/
  name : String
  /-- The kind of literal. -/
  kind : FunctionKind
  /-- The host function behind it. Without one a call does nothing. -/
  native? : Option NativeId
deriving Inhabited

/-- The identity of a type of host objects. -/
structure HostTypeId where
  /-- The number by which the host knows the type. -/
  index : Nat
deriving DecidableEq, Inhabited

/-- A type of host objects. Types are told apart by their identities; the name is for texts alone,
and two types may have the same one. -/
structure HostType where
  /-- The identity. -/
  id : HostTypeId
  /-- The name. -/
  name : String
deriving Inhabited

/-- An object of the host. What scripts read of it is assumed to be a function of the key: reading
has no effect and gives the same value each time. -/
structure HostObject where
  /-- The type. -/
  type : HostType
  /-- The value that the object carries, if any. -/
  payload? : Option Value
  /-- What scripts read at a key, if anything. -/
  shown : String → Option Value
  /-- The number by which the host knows the object. -/
  handle : Nat
deriving Inhabited

/-- The kinds of objects. -/
inductive ObjectKind where
  | ordinary
  | array (elements : Elements)
  | function (f : FunctionData)
  /-- A date, by its time value. -/
  | date (time : Float)
  | host (h : HostObject)
  /-- A type of host objects as a value. -/
  | hostType (t : HostType)
deriving Inhabited

/-- An object. -/
structure Object where
  /-- The kind, with what belongs to it. -/
  kind : ObjectKind
  /-- The explicit properties. -/
  properties : Table String Property
  /-- The object that supplies missing properties. -/
  prototype? : Option ObjectId
deriving Inhabited

namespace ObjectKind

/-- The elements of an array. -/
def elements? : ObjectKind → Option Elements
  | array e => some e
  | _ => none

/-- The data of a function. -/
def function? : ObjectKind → Option FunctionData
  | function f => some f
  | _ => none

/-- The host object behind a wrapper. -/
def host? : ObjectKind → Option HostObject
  | host h => some h
  | _ => none

/-- The value of an implicit property. -/
def implicit? (kind : ObjectKind) (key : String) : Option Value :=
  match kind with
  | array e =>
    if key = "length" then some (Primitive.ofInt e.length)
    else (arrayIndexOfKey? key).bind e.get?
  | function f => if key = "name" then some (.str f.name) else none
  | host h => h.shown key
  | _ => none

/-- Whether a key is an implicit property. -/
def hasImplicit (kind : ObjectKind) (key : String) : Bool :=
  match kind with
  | array e =>
    if key = "length" then true
    else match arrayIndexOfKey? key with
      | some i => e.contains i
      | none => false
  | function _ => key = "name"
  | host h => (h.shown key).isSome
  | _ => false

/-- Whether the elements of an object take the assignments to a key. -/
def isElementKey (kind : ObjectKind) (key : String) : Bool :=
  kind.elements?.isSome && ((arrayIndexOfKey? key).isSome || key == "length")

/-- Whether a key is an implicit property that cannot be assigned. -/
def isFixed (kind : ObjectKind) (key : String) : Bool :=
  kind.function?.isSome && key = "name"

end ObjectKind

namespace Object

/-- An object of a kind, without explicit properties and without a prototype. -/
def ofKind (kind : ObjectKind) : Object :=
  ⟨kind, {}, none⟩

/-- The value of an own property. Explicit properties hide implicit ones. -/
def getOwn? (o : Object) (key : String) : Option Value :=
  match o.properties.get? key with
  | some p => some p.value
  | none => o.kind.implicit? key

/-- Whether a key is an own property. -/
def hasOwn (o : Object) (key : String) : Bool :=
  o.properties.contains key || o.kind.hasImplicit key

/-- What an object says on assignments to a key, if anything. -/
def writable? (o : Object) (key : String) : Option Bool :=
  match o.properties.get? key with
  | some p => some p.writable
  | none => if o.kind.isFixed key then some false else none

/-- Puts an explicit property. -/
def define (o : Object) (key : String) (p : Property) : Object :=
  { o with properties := o.properties.insert key p }

/-- An object after an accepted assignment to one of its properties. Arrays take indices and lengths
in their elements. -/
def assigned? (o : Object) (key : String) (v : Value) : Option Object :=
  match o.kind with
  | .array e =>
    match arrayIndexOfKey? key with
    | some index => some { o with kind := .array (e.set index v) }
    | none =>
      if key = "length" then
        (Elements.lengthOf? v).map fun length => { o with kind := .array (e.setLength length) }
      else some (o.define key ⟨v, true⟩)
  | _ => some (o.define key ⟨v, true⟩)

/-- Where an accepted assignment goes. -/
theorem assigned?_cases {o o' : Object} {key : String} {v : Value}
    (h : o.assigned? key v = some o') :
    (∃ e index, o.kind = .array e ∧ arrayIndexOfKey? key = some index ∧
      o' = { o with kind := .array (e.set index v) }) ∨
    (∃ e length, o.kind = .array e ∧ key = "length" ∧ Elements.lengthOf? v = some length ∧
      o' = { o with kind := .array (e.setLength length) }) ∨
    (o.kind.isElementKey key = false ∧ o' = o.define key ⟨v, true⟩) := by
  unfold assigned? at h
  split at h
  · next e hkind =>
    split at h
    · next index hindex => exact .inl ⟨e, index, hkind, hindex, (Option.some.inj h).symm⟩
    · next hindex =>
      split at h
      · next hkey =>
        obtain ⟨length, hlength, ho'⟩ := Option.map_eq_some_iff.1 h
        exact .inr (.inl ⟨e, length, hkind, hkey, hlength, ho'.symm⟩)
      · next hkey =>
        refine .inr (.inr ⟨?_, (Option.some.inj h).symm⟩)
        simp [ObjectKind.isElementKey, hindex, hkey]
  · next hkind =>
    refine .inr (.inr ⟨?_, (Option.some.inj h).symm⟩)
    have hnone : o.kind.elements? = none := by
      cases hk : o.kind with
      | array e => exact absurd hk (hkind e)
      | _ => rfl
    rw [ObjectKind.isElementKey, hnone]
    rfl

end Object

end ScriptOps
