import ScriptOps.Heap.Display
import ScriptOps.Span

/-!
# Errors

An evaluation fails for a cause, at a place if one is known. Causes hold the texts of the values
they speak of as these were when the evaluation failed; only a thrown value is kept itself. A
failure in the host has an identity: two failures with the same text are still two.
-/

namespace ScriptOps

/-- The categories of errors that scripts know. -/
inductive Category where
  | type | reference | early | range
deriving DecidableEq, Inhabited

/-- The name of the errors of a category. -/
def Category.name : Category → String
  | type => "TypeError"
  | reference => "ReferenceError"
  | early => "SyntaxError"
  | range => "RangeError"

/-- The identity of a failure in the host. It tells failures with the same text apart. -/
structure FailureId where
  /-- The number by which the host knows the failure. -/
  index : Nat
deriving DecidableEq, Inhabited

/-- Why an evaluation fails. -/
inductive Cause where
  /-- A callback raised an error of a category. -/
  | raised (category : Category) (message : String)
  /-- A callback threw a value. -/
  | thrown (v : Value)
  /-- A callback failed in the host. The failure is known by its identity, whatever its text. -/
  | host (id : FailureId) (message : String)
  /-- No conversion method gave a primitive. -/
  | notPrimitive
  /-- A joined string is too long. -/
  | stringTooLong
  /-- Conversions are nested too deeply. -/
  | nestedTooDeeply
  | instanceOfNonObject (right : String)
  | instanceOfNonCallable (right : String)
  | instanceOfPrototype (prototype : String)
  | membershipInNonObject (key right : String)
  /-- The target of an assignment is no reference. -/
  | invalidTarget
  /-- An assignment to a name that strict code reserves. -/
  | reservedName (name : String)
  | undeclared (name : String)
  | constantBinding (name : String)
  | readOnlyBinding (name : String)
  | readOnlyProperty (key base : String)
  | propertyOfPrimitive (key base : String)
  | propertyOfNullish (key base : String)
  | notIterable (value : String)
  | notCallable (callee : String)
  | classCalled (name : String)
deriving Inhabited

namespace Cause

/-- The category of an error. Thrown values and failures of the host have none. -/
def category? : Cause → Option Category
  | raised category _ => some category
  | thrown _ | host .. => none
  | stringTooLong | nestedTooDeeply => some .range
  | invalidTarget | undeclared _ => some .reference
  | reservedName _ => some .early
  | notPrimitive | instanceOfNonObject _ | instanceOfNonCallable _ | instanceOfPrototype _
  | membershipInNonObject .. | constantBinding _ | readOnlyBinding _ | readOnlyProperty ..
  | propertyOfPrimitive .. | propertyOfNullish .. | notIterable _ | notCallable _
  | classCalled _ => some .type

/-- The message of an error, without its category. -/
def message (h : Heap) : Cause → String
  | raised _ message | host _ message => message
  | thrown v => h.display v
  | notPrimitive => "Cannot convert object to primitive value"
  | stringTooLong => "Invalid string length"
  | nestedTooDeeply => "Conversions are nested too deeply"
  | instanceOfNonObject right => "Right-hand side of 'instanceof' is not an object: " ++ right
  | instanceOfNonCallable right => "Right-hand side of 'instanceof' is not callable: " ++ right
  | instanceOfPrototype prototype =>
    "Function has non-object prototype '" ++ prototype ++ "' in instanceof check"
  | membershipInNonObject key right =>
    "Cannot use 'in' operator to search for " ++ key ++ " in " ++ right
  | invalidTarget => "Invalid left-hand side in assignment"
  | reservedName name => "Unexpected eval or arguments in strict mode: " ++ name
  | undeclared name => name ++ " is not defined"
  | constantBinding name => "Assignment to constant variable '" ++ name ++ "'"
  | readOnlyBinding name => "Cannot assign to read only variable '" ++ name ++ "'"
  | readOnlyProperty key base => "Cannot assign to read only property '" ++ key ++ "' of " ++ base
  | propertyOfPrimitive key base => "Cannot create property '" ++ key ++ "' on " ++ base
  | propertyOfNullish key base =>
    "Cannot read properties of " ++ base ++ " (reading '" ++ key ++ "')"
  | notIterable value => value ++ " is not iterable"
  | notCallable callee => callee ++ " is not a function"
  | classCalled name => "Class constructor " ++ name ++ " cannot be invoked without 'new'"

/-- The full text of an error. -/
def text (h : Heap) (c : Cause) : String :=
  match c with
  | thrown v => "Uncaught " ++ h.display v
  | c =>
    match c.category? with
    | some category => category.name ++ ": " ++ c.message h
    | none => c.message h

end Cause

/-- A failed evaluation. -/
structure Error where
  /-- Why it failed. -/
  cause : Cause
  /-- Where it failed. -/
  span? : Option Span
deriving Inhabited

namespace Error

/-- The error of a cause, without a place. -/
def ofCause (c : Cause) : Error :=
  ⟨c, none⟩

/-- Gives an error a place, unless it has one. A dummy span is no place. -/
def locate (e : Error) (span : Span) : Error :=
  match e.span? with
  | some _ => e
  | none => if span.isDummy then e else { e with span? := some span }

/-- A place does not change why an evaluation failed. -/
@[simp] theorem cause_locate (e : Error) (span : Span) : (e.locate span).cause = e.cause := by
  unfold locate
  split
  · rfl
  · split <;> rfl

end Error

end ScriptOps
