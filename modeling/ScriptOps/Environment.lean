import ScriptOps.Table
import ScriptOps.Value

/-!
# Bindings

Scopes bind names to values and refer to the scopes around them. An environment is a stack of scopes
above a global one. Values are looked up along the scopes around the innermost one; a write goes to
the scope of the stack that declares the name.
-/

namespace ScriptOps

/-- Whether a binding takes new values. -/
inductive Mutability where
  | mutable
  | immutable
  /-- Takes no new values, but only strict code is told. -/
  | readOnly
deriving DecidableEq, Inhabited

/-- Why a binding was not written. -/
inductive BindingError where
  | immutable | readOnly | undeclared
deriving DecidableEq, Inhabited

/-- The value of a name. -/
structure Binding where
  /-- The value. -/
  value : Value
  /-- Whether it takes new values. -/
  mutability : Mutability
deriving Inhabited

/-- The identity of a scope: its place among all scopes. -/
structure ScopeId where
  /-- The place, in order of creation. -/
  index : Nat
deriving DecidableEq, Inhabited

/-- The bindings of a scope. -/
structure Scope where
  /-- The bindings. -/
  bindings : Table String Binding
  /-- The scope around it. -/
  parent? : Option ScopeId
deriving Inhabited

namespace Scope

/-- Whether a scope declares a name. -/
def declares (s : Scope) (name : String) : Bool :=
  s.bindings.contains name

/-- The value of a name that a scope declares. -/
def getOwn? (s : Scope) (name : String) : Option Value :=
  (s.bindings.get? name).map (·.value)

/-- Whether a name that a scope declares takes new values. -/
def mutability? (s : Scope) (name : String) : Option Mutability :=
  (s.bindings.get? name).map (·.mutability)

/-- Declares a name, or declares it anew. -/
def define (s : Scope) (name : String) (v : Value) (m : Mutability) : Scope :=
  { s with bindings := s.bindings.insert name ⟨v, m⟩ }

/-- Gives a declared name a new value. -/
def setOwn (s : Scope) (name : String) (v : Value) : Except BindingError Scope :=
  match s.mutability? name with
  | some .mutable => .ok (s.define name v .mutable)
  | some .immutable => .error .immutable
  | some .readOnly => .error .readOnly
  | none => .error .undeclared

end Scope

/-- All scopes, by identity. -/
structure ScopeStore where
  /-- The scopes, in order of creation. -/
  scopes : Array Scope
deriving Inhabited

namespace ScopeStore

/-- The scope of an identity. -/
def scope (s : ScopeStore) (id : ScopeId) : Scope :=
  s.scopes.getD id.index ⟨{}, none⟩

/-- Replaces a scope. -/
def update (s : ScopeStore) (id : ScopeId) (scope : Scope) : ScopeStore :=
  ⟨s.scopes.setIfInBounds id.index scope⟩

/-- Adds a scope inside another one. -/
def add (s : ScopeStore) (parent? : Option ScopeId) : ScopeId × ScopeStore :=
  (⟨s.scopes.size⟩, ⟨s.scopes.push ⟨{}, parent?⟩⟩)

/-- The first `fuel` scopes from a scope outward. -/
def outwardUpTo (s : ScopeStore) : Nat → ScopeId → List ScopeId
  | 0, _ => []
  | fuel + 1, id => id :: match (s.scope id).parent? with
    | some parent => s.outwardUpTo fuel parent
    | none => []

/-- A scope and the scopes around it, innermost first. -/
def outward (s : ScopeStore) (id : ScopeId) : List ScopeId :=
  s.outwardUpTo (s.scopes.size + 1) id

/-- Declares a name in a scope. -/
def define (s : ScopeStore) (id : ScopeId) (name : String) (v : Value) (m : Mutability) :
    ScopeStore :=
  s.update id ((s.scope id).define name v m)

/-- Gives a name that a scope declares a new value. -/
def setOwn (s : ScopeStore) (id : ScopeId) (name : String) (v : Value) :
    Except BindingError ScopeStore :=
  ((s.scope id).setOwn name v).map (s.update id)

/-- The value of a name, from a scope outward. -/
def lookup? (s : ScopeStore) (id : ScopeId) (name : String) : Option Value :=
  (s.outward id).findSome? fun i => (s.scope i).getOwn? name

/-- Gives a name a new value in the first scope outward that declares it. -/
def assign (s : ScopeStore) (id : ScopeId) (name : String) (v : Value) :
    Except BindingError ScopeStore :=
  match (s.outward id).find? fun i => (s.scope i).declares name with
  | some i => s.setOwn i name v
  | none => .error .undeclared

/-- A replaced scope is read back. -/
theorem scope_update_self (s : ScopeStore) (id : ScopeId) (scope : Scope)
    (hid : id.index < s.scopes.size) : (s.update id scope).scope id = scope := by
  simp [ScopeStore.scope, update, hid]

/-- Replacing a scope leaves the others alone. -/
theorem scope_update_of_ne (s : ScopeStore) {id other : ScopeId} (hne : other ≠ id)
    (scope : Scope) : (s.update id scope).scope other = s.scope other := by
  have hi : id.index ≠ other.index := fun he => hne (by cases id; cases other; simp_all)
  simp [ScopeStore.scope, update, Array.getElem?_setIfInBounds_ne hi]

end ScopeStore

/-- A stack of scopes. -/
structure Environment where
  /-- All scopes that were ever pushed. -/
  store : ScopeStore
  /-- The scopes on the stack, innermost first. -/
  stack : List ScopeId
deriving Inhabited

namespace Environment

/-- The identity of the global scope. -/
def global : ScopeId := ⟨0⟩

/-- The environment with an empty global scope. -/
def empty : Environment :=
  ⟨⟨#[⟨{}, none⟩]⟩, [global]⟩

/-- The number of scopes on the stack. -/
def depth (e : Environment) : Nat :=
  e.stack.length

/-- The innermost scope. -/
def innermost (e : Environment) : ScopeId :=
  e.stack.headD global

/-- Pushes a scope. -/
def push (e : Environment) : Environment :=
  let (id, store) := e.store.add (some e.innermost)
  ⟨store, id :: e.stack⟩

/-- Pops a scope. The last one stays. -/
def pop (e : Environment) : Environment :=
  if 1 < e.depth then { e with stack := e.stack.tail } else e

/-- Declares a name in the innermost scope. -/
def define (e : Environment) (name : String) (v : Value) (m : Mutability) : Environment :=
  { e with store := e.store.define e.innermost name v m }

/-- Declares a name in the global scope. -/
def defineGlobal (e : Environment) (name : String) (v : Value) (m : Mutability) : Environment :=
  { e with store := e.store.define global name v m }

/-- The value of a name. -/
def lookup? (e : Environment) (name : String) : Option Value :=
  e.store.lookup? e.innermost name

/-- Gives a declared name a new value. -/
def assign (e : Environment) (name : String) (v : Value) : Except BindingError Environment :=
  (e.store.assign e.innermost name v).map fun store => { e with store }

/-- The innermost scope of the stack that declares a name. -/
def resolve? (e : Environment) (name : String) : Option ScopeId :=
  e.stack.find? fun id => (e.store.scope id).declares name

/-- Gives a name that a scope declares a new value. -/
def setOwn (e : Environment) (id : ScopeId) (name : String) (v : Value) :
    Except BindingError Environment :=
  (e.store.setOwn id name v).map fun store => { e with store }

/-- Gives a name a new value, and declares it in the global scope if no scope does. -/
def defineOrAssign (e : Environment) (name : String) (v : Value) :
    Except BindingError Environment :=
  match e.resolve? name with
  | some id => e.setOwn id name v
  | none => .ok (e.defineGlobal name v .mutable)

end Environment

end ScriptOps
