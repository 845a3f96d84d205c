import ScriptOps.Destructuring
import ScriptOps.Overload.Catalog
import ScriptOps.PropertyAccess
import ScriptOps.BinaryOperation

/-!
# What effects on the world are made of

Conversions, comparisons, operators and accesses to properties are all built by sequencing from a
few steps: reading the heap, assigning to a property, asking the host, and failing.
`Action.LiteralFree` says that a property of effects holds of these steps and is kept by sequencing;
then it holds of everything that is built from them. What is proved of the steps of a host in this
way is so proved of every conversion and every operator at once. `Action.Closed` asks for the
creation of objects as well, which literals do.

Conversions and operators need less of this than the rest. They write nothing themselves, and they
fail for nesting too deeply only where conversions nest, so `Action.Basis` asks for the other steps,
and lets a property depend on what is known of the heaps that are read.
-/

namespace ScriptOps

/-- Whether an object of a kind is an array that stores a value. -/
def ObjectKind.Holds (kind : ObjectKind) (v : Value) : Prop :=
  ∃ e, kind.elements? = some e ∧ e.Stores v

/-! ### Conversions and operators -/

/-- A property of effects that sequencing keeps and that what conversions and operators are made of
has, if all heaps that they read have the property `I`. Nested conversions are not included. -/
structure Action.Basis (host : Host) (I : Heap → Prop) (P : ∀ ⦃α : Type⦄, Action α → Prop) :
    Prop where
  pure : ∀ {α : Type} (a : α), P (pure a : Action α)
  bind : ∀ {α β : Type} {x : Action α} {f : α → Action β}, P x → (∀ a, P (f a)) → P (x >>= f)
  fail : ∀ {α : Type} {c : Cause}, c ≠ .nestedTooDeeply → P (Action.fail c : Action α)
  look : ∀ {α : Type} {f : Heap → Action α}, (∀ h, I h → P (f h)) → P (Action.heap >>= f)
  compared : ∀ x y : HostObject, P (Action.observe (.compared x y))
  ask : ∀ c : Callback, P (host.ask c)

namespace Action.Basis

variable {host : Host} {I : Heap → Prop} {P : ∀ ⦃α : Type⦄, Action α → Prop}

/-- Computing on a result adds no step. -/
theorem map (b : Basis host I P) {α β : Type} {x : Action α} (f : α → β) (hx : P x) :
    P (f <$> x) := by
  rw [map_eq_pure_bind]
  exact b.bind hx fun a => b.pure (f a)

/-- Both branches of a decision may be different effects. -/
theorem ite {α : Type} {c : Prop} [Decidable c] {x y : Action α} (hx : P x) (hy : P y) :
    P (if c then x else y) := by
  split
  · exact hx
  · exact hy

/-- A call of an object has the property, for a callable object and for any other. -/
theorem call (b : Basis host I P) (callee : ObjectId) (receiver : Value) (args : List Value) :
    P (host.call callee receiver args) := by
  refine b.look fun h _ => ?_
  split
  · split
    · exact b.ask _
    · split
      · exact b.fail nofun
      · exact b.pure _
      · exact b.pure _
  · exact b.fail nofun

/-- The texts of the elements are joined one after the other. -/
theorem joinFrom (b : Basis host I P) {text : Value → Action String} {array : ObjectId}
    (htext : ∀ h, I h → ∀ v, (h.kind array).Holds v → P (text v)) (count index : Nat)
    (joined : String) : P (Coercion.joinFrom text array count index joined) := by
  induction count generalizing index joined with
  | zero => exact b.pure _
  | succ count ih =>
    have step (joined : String) :
        P (if joined.utf8ByteSize > Coercion.maxTextLength then Action.fail .stringTooLong
          else Coercion.joinFrom text array count (index + 1) joined) :=
      ite (b.fail nofun) (ih _ _)
    refine b.look fun h hh => ?_
    dsimp only
    split
    · next v hv =>
      obtain ⟨e, he, hget⟩ := Option.bind_eq_some_iff.1 (Option.filter_eq_some_iff.1 hv).1
      have hholds : (h.kind array).Holds v := ⟨e, he, Elements.stores_of_get? hget⟩
      exact b.bind (htext h hh v hholds) fun _ => b.bind (b.pure _) step
    · exact b.bind (b.pure _) step

/-- A built-in conversion method has the property if the texts of the object's parts have. -/
theorem builtinMethod (b : Basis host I P) {text : Value → Action String} {id : ObjectId}
    (htext : ∀ h, I h → ∀ v, (h.kind id).Holds v → P (text v)) (method : ConversionMethod) :
    P (Coercion.builtinMethod text id method) := by
  refine b.look fun h _ => ?_
  dsimp only
  split
  · exact b.pure _
  · exact b.pure _
  · exact b.bind (ite (b.fail nofun) (b.joinFrom htext _ _ _)) fun _ => b.pure _
  · exact b.pure _
  · exact b.pure _
  · exact b.pure _

/-- A conversion method has it, a callback as a built-in one. -/
theorem runMethod? (b : Basis host I P) {text : Value → Action String} {id : ObjectId}
    (htext : ∀ h, I h → ∀ v, (h.kind id).Holds v → P (text v)) (method : ConversionMethod) :
    P (Coercion.runMethod? host text id method) := by
  refine b.look fun h _ => ite ?_ (b.map _ (b.builtinMethod htext _))
  split
  · exact ite (b.map _ (b.call _ _ _)) (b.pure _)
  · exact b.pure _

/-- The first primitive among several methods has it if each method has. -/
theorem firstPrimitive (b : Basis host I P)
    {run? : ConversionMethod → Action (Option Value)} (hrun : ∀ m, P (run? m))
    (methods : List ConversionMethod) : P (Coercion.firstPrimitive run? methods) := by
  induction methods with
  | nil => exact b.fail nofun
  | cons method rest ih =>
    refine b.bind (hrun method) fun result => ?_
    split
    · exact b.pure _
    · exact ih

/-- The conversion of a host object has it for either hint. -/
theorem hostPrimitive (b : Basis host I P) (o : HostObject) (hint : Hint) :
    P (Coercion.hostPrimitive host o hint) := by
  refine ite (b.bind (b.ask _) fun result => ?_) (b.fail nofun)
  split
  · exact b.pure _
  · exact b.fail nofun

/-- An object converts by its methods, and those of an array convert the objects that it holds, less
deep. -/
theorem objectPrimitive_succ (b : Basis host I P) {depth : Nat} {id : ObjectId}
    (hnested : ∀ h, I h → ∀ element, (h.kind id).Holds (.object element) →
      P (Coercion.objectPrimitive host depth .string element)) (hint : Hint) :
    P (Coercion.objectPrimitive host (depth + 1) hint id) := by
  refine b.look fun h _ => ?_
  split
  · exact b.hostPrimitive _ _
  · exact b.pure _
  · refine b.firstPrimitive (fun method => b.runMethod? (fun h hh v hv => ?_) _) _
    cases v with
    | primitive p => exact b.pure _
    | object element => exact b.bind (hnested h hh element hv) fun p => b.pure _

section

variable {v l r : Value}

/-- The conversion to a double has it if the one to a primitive has. -/
theorem toFloat (b : Basis host I P) (hv : ∀ hint, P (host.toPrimitive hint v)) :
    P (host.toFloat v) :=
  b.bind (hv _) fun _ => b.pure _

/-- The conversion to a string has it if the one to a primitive has. -/
theorem toText (b : Basis host I P) (hv : ∀ hint, P (host.toPrimitive hint v)) :
    P (host.toText v) :=
  b.bind (hv _) fun _ => b.pure _

/-- Strict equality has it, also where the host compares two objects of a type. -/
theorem strictEquals (b : Basis host I P) (l r : Value) : P (host.strictEquals l r) := by
  refine b.bind (b.look fun h _ => ?_) fun _ => b.look fun _ _ => b.pure _
  split
  · exact ite (b.compared _ _) (b.pure _)
  · exact b.pure _

/-- Loose equality has it if the conversions of both operands have. -/
theorem looseEquals (b : Basis host I P) (hl : ∀ hint, P (host.toPrimitive hint l))
    (hr : ∀ hint, P (host.toPrimitive hint r)) : P (host.looseEquals l r) := by
  unfold Host.looseEquals
  split
  · exact b.pure _
  · exact ite (b.pure _) (b.bind (hr _) fun _ => b.pure _)
  · exact ite (b.pure _) (b.bind (hl _) fun _ => b.pure _)
  · exact b.strictEquals _ _

/-- The test whether an object is an instance of another has it. -/
theorem isInstanceOf (b : Basis host I P) (left right : Value) : P (isInstanceOf left right) := by
  refine b.look fun h _ => ?_
  split
  · exact b.fail nofun
  · split
    · exact b.pure _
    · split
      · exact b.pure _
      · split
        · exact b.pure _
        · exact b.fail nofun
    · exact b.fail nofun

/-- Membership has it if the conversion of its key has. -/
theorem isMember (b : Basis host I P) (hl : ∀ hint, P (host.toPrimitive hint l)) (r : Value) :
    P (isMember host l r) := by
  unfold ScriptOps.isMember
  split
  · exact b.look fun _ _ => b.fail nofun
  · exact b.bind (b.toText hl) fun _ => b.look fun _ _ => b.pure _

/-- The built-in operators have it if the conversions of both operands have. -/
theorem convertAndCompute (b : Basis host I P) (op : BinaryOp)
    (hl : ∀ hint, P (host.toPrimitive hint l)) (hr : ∀ hint, P (host.toPrimitive hint r)) :
    P (op.convertAndCompute host l r) :=
  ite (b.pure _)
    (b.bind (b.bind (hl _) fun _ => b.bind (hr _) fun _ => b.pure _) fun _ => b.pure _)

/-- Every operator is built from the steps and the conversions of its operands. -/
theorem evaluate (b : Basis host I P) (op : BinaryOp) (hl : ∀ hint, P (host.toPrimitive hint l))
    (hr : ∀ hint, P (host.toPrimitive hint r)) : P (op.evaluate host l r) := by
  unfold BinaryOp.evaluate
  split
  · exact b.bind (b.strictEquals _ _) fun _ => b.pure _
  · exact b.bind (b.strictEquals _ _) fun _ => b.pure _
  · exact b.bind (b.looseEquals hl hr) fun _ => b.pure _
  · exact b.bind (b.looseEquals hl hr) fun _ => b.pure _
  · exact b.bind (b.isInstanceOf _ _) fun _ => b.pure _
  · exact b.bind (b.isMember hl _) fun _ => b.pure _
  · exact b.convertAndCompute _ hl hr

/-- The conversion of an argument has it, for every type of parameter. -/
theorem convert (b : Basis host I P) (hv : ∀ hint, P (host.toPrimitive hint v)) (t : ParamType) :
    P (t.convert host v) := by
  cases t with
  | number => exact b.bind (b.toFloat hv) fun _ => b.pure _
  | string => exact b.bind (b.toText hv) fun _ => b.pure _
  | boolean | host | any => exact b.pure _

/-- So is a call of an operator method. -/
theorem invoke (b : Basis host I P) (m : OperatorMethod)
    (hl : ∀ hint, P (host.toPrimitive hint l)) (hr : ∀ hint, P (host.toPrimitive hint r)) :
    P (m.invoke host l r) :=
  b.bind (b.convert hl _) fun _ => b.bind (b.convert hr _) fun _ => b.ask _

/-- A computed key has it if the conversion of the key has. -/
theorem computedKey (b : Basis host I P) (base : Value)
    (hkey : ∀ hint, P (host.toPrimitive hint v)) : P (computedKey host base v) := by
  unfold ScriptOps.computedKey
  split
  · exact b.look fun _ _ => b.fail nofun
  · exact b.look fun _ _ => b.fail nofun
  · exact b.toText hkey

end

end Action.Basis

/-! ### All effects -/

/-- A property of effects that the steps but the creation of objects have and that sequencing keeps.
Literals create objects, and besides them the host does. -/
structure Action.LiteralFree (host : Host) (P : ∀ ⦃α : Type⦄, Action α → Prop) : Prop where
  pure : ∀ {α : Type} (a : α), P (pure a : Action α)
  bind : ∀ {α β : Type} {x : Action α} {f : α → Action β}, P x → (∀ a, P (f a)) → P (x >>= f)
  fail : ∀ {α : Type} (c : Cause), P (Action.fail c : Action α)
  heap : P Action.heap
  assign : ∀ (id : ObjectId) (key : String) (v : Value), P (Action.assign id key v)
  compared : ∀ x y : HostObject, P (Action.observe (.compared x y))
  ask : ∀ c : Callback, P (host.ask c)

/-- A property of effects that all steps have and that sequencing keeps. -/
structure Action.Closed (host : Host) (P : ∀ ⦃α : Type⦄, Action α → Prop) : Prop
    extends Action.LiteralFree host P where
  create : ∀ kind : ObjectKind, P (Action.create kind)
  createFunction : ∀ (name : String) (kind : FunctionKind), P (Action.createFunction name kind)

/-- What every effect has. -/
theorem Action.Closed.trivial (host : Host) : Closed host fun _ _ => True where
  pure _ := True.intro
  bind _ _ := True.intro
  fail _ := True.intro
  heap := True.intro
  create _ := True.intro
  createFunction _ _ := True.intro
  assign _ _ _ := True.intro
  compared _ _ := True.intro
  ask _ := True.intro

namespace Action.LiteralFree

variable {host : Host} {P : ∀ ⦃α : Type⦄, Action α → Prop}

/-- Such a property is a basis, with no condition on the heaps. -/
theorem basis (h : LiteralFree host P) : Basis host (fun _ => True) P where
  pure := h.pure
  bind := h.bind
  fail _ := h.fail _
  look hf := h.bind h.heap fun heap => hf heap True.intro
  compared := h.compared
  ask := h.ask

/-- A call of any value has the property, the refused ones included. -/
theorem callValue (h : LiteralFree host P) (callee receiver : Value) (args : List Value) :
    P (callValue host callee receiver args) := by
  refine h.bind h.heap fun heap => ?_
  split
  · exact Basis.ite (h.basis.call _ _ _) (h.fail _)
  · exact h.fail _

/-- Conversions may nest to any depth, and fail when it is exhausted. -/
theorem objectPrimitive (h : LiteralFree host P) (depth : Nat) (hint : Hint) (id : ObjectId) :
    P (Coercion.objectPrimitive host depth hint id) := by
  induction depth generalizing hint id with
  | zero => exact h.fail _
  | succ depth ih => exact h.basis.objectPrimitive_succ (fun _ _ element _ => ih _ element) hint

/-- Conversion to a primitive has the property. -/
theorem toPrimitive (h : LiteralFree host P) (v : Value) (hint : Hint) :
    P (host.toPrimitive hint v) := by
  cases v with
  | primitive p => exact h.pure p
  | object id => exact h.objectPrimitive _ _ _

/-- A binary operator has the property. -/
theorem evaluate (h : LiteralFree host P) (op : BinaryOp) (l r : Value) :
    P (op.evaluate host l r) :=
  h.basis.evaluate op (h.toPrimitive l) (h.toPrimitive r)

/-- A call of an overload has the property. -/
theorem invoke (h : LiteralFree host P) (m : OperatorMethod) (l r : Value) :
    P (m.invoke host l r) :=
  h.basis.invoke m (h.toPrimitive l) (h.toPrimitive r)

theorem computedKey (h : LiteralFree host P) (base key : Value) : P (computedKey host base key) :=
  h.basis.computedKey base (h.toPrimitive key)

/-! ### Properties and patterns -/

/-- Reading a property has the property, as it leaves the world. -/
theorem getProperty (h : LiteralFree host P) (base : Value) (key : String) :
    P (getProperty base key) := by
  unfold ScriptOps.getProperty
  split
  · exact h.bind h.heap fun _ => h.pure _
  · split
    all_goals first | exact h.fail _ | exact h.pure _

/-- Writing a property has the property, refused or not. -/
theorem putProperty (h : LiteralFree host P) (strict : Bool) (base : Value) (key : String)
    (v : Value) :
    P (putProperty strict base key v) := by
  unfold ScriptOps.putProperty
  split
  · refine h.bind (h.assign _ _ _) fun accepted => Basis.ite ?_ (h.pure _)
    exact h.bind h.heap fun _ => h.fail _
  · split
    · exact h.fail _
    · exact h.fail _
    · exact Basis.ite (h.fail _) (h.pure _)

/-- Taking a value apart into elements has the property. -/
theorem elementSource (h : LiteralFree host P) (v : Value) : P (elementSource v) := by
  refine h.bind h.heap fun heap => ?_
  split
  · exact h.pure _
  · exact h.fail _
  · exact Basis.ite (h.pure _) (h.fail _)

/-- The check of a record that a pattern takes apart has the property. -/
theorem checkRecord (h : LiteralFree host P) (keys : List String) (v : Value) :
    P (checkRecord keys v) := by
  unfold ScriptOps.checkRecord
  split
  · exact Basis.ite (h.fail _) (h.pure _)
  · exact h.pure _

end Action.LiteralFree

end ScriptOps
