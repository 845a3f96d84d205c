import ScriptOps.Destructuring
import ScriptOps.PropertyAccess

/-!
# Parts of patterns

A pattern is taken apart into its parts: its array patterns, its object patterns and its leaves,
each with the path that leads to it. The parts stand in the order in which the pattern comes to
them, from left to right and each pattern before what is in it. The same path, followed from a value
through the heap, leads to the part of the value that belongs there. Whether that value fits is a
question for the part alone.
-/

namespace ScriptOps

/-! ### Paths -/

/-- A step from a value to something in it. -/
inductive PathStep where
  /-- To the element of an array or the character of a string. -/
  | element (index : Nat)
  /-- To a property. -/
  | property (key : String)
deriving DecidableEq

namespace Heap

/-- What a step leads to. It is undefined for holes, past the end, and where there is nothing to
step to. -/
def part (h : Heap) : Value → PathStep → Value
  | .primitive (.str t), .element index =>
    (t.toList[index]?).elim .undefined fun c => .str c.toString
  | .object id, .element index => ((h.kind id).elements?.bind (·.get? index)).getD .undefined
  | .primitive (.str t), .property key => textProperty t key
  | .object id, .property key => h.get id key
  | .primitive _, _ => .undefined

/-- What a path leads to. -/
def follow (h : Heap) (v : Value) (path : List PathStep) : Value :=
  path.foldl h.part v

@[simp] theorem follow_nil (h : Heap) (v : Value) : h.follow v [] = v :=
  rfl

/-- Following one step more takes that part of what the path reaches. -/
theorem follow_concat (h : Heap) (v : Value) (path : List PathStep) (step : PathStep) :
    h.follow v (path ++ [step]) = h.part (h.follow v path) step := by
  rw [follow, List.foldl_append]
  rfl

/-- Whether a value is an array or a string. -/
def isIterable (h : Heap) : Value → Bool
  | .primitive (.str _) => true
  | .primitive _ => false
  | .object id => (h.kind id).elements?.isSome

end Heap

/-- An array pattern takes the elements of what fits. -/
theorem elementSource_of_isIterable {v : Value} {w : World} (hv : w.heap.isIterable v = true) :
    ∃ source, elementSource v w = .ok source w ∧
      ∀ index, source.get w.heap index = w.heap.part v (.element index) := by
  cases v with
  | object id =>
    refine ⟨.array id, ?_, fun index => rfl⟩
    change (if w.heap.isIterable (.object id) then return .array id
      else Action.fail (.notIterable (w.heap.displayObject id)) : Action ElementSource) w = _
    rw [if_pos hv]
    rfl
  | primitive p =>
    cases p with
    | str t =>
      refine ⟨.characters t.toList, rfl, fun index => ?_⟩
      rw [ElementSource.get, Heap.part]
      cases t.toList[index]? <;> rfl
    | undefined | null | bool | int | number => nomatch hv

/-- It refuses what does not fit. -/
theorem elementSource_of_not_isIterable {v : Value} {w : World}
    (hv : w.heap.isIterable v = false) :
    elementSource v w = .error (.ofCause (.notIterable (w.heap.display v))) w := by
  cases v with
  | object id =>
    change (if w.heap.isIterable (.object id) then return .array id
      else Action.fail (.notIterable (w.heap.displayObject id)) : Action ElementSource) w = _
    rw [hv]
    rfl
  | primitive p =>
    cases p with
    | str t => nomatch hv
    | undefined | null | bool | int | number => rfl

/-- An object pattern takes any value but undefined and null. -/
theorem checkRecord_eq (keys : List String) (v : Value) (w : World) :
    checkRecord keys v w =
      if v.isNullish then
        .error (.ofCause (.propertyOfNullish (keys.headD "") (w.heap.display v))) w
      else .ok () w := by
  cases v with
  | object id => rfl
  | primitive p => cases p <;> rfl

/-- The properties of such a value are read without asking anyone. -/
theorem getProperty_eq_part {v : Value} (hv : v.isNullish = false) (key : String) (w : World) :
    getProperty v key w = .ok (w.heap.part v (.property key)) w := by
  cases v with
  | object id => rfl
  | primitive p =>
    cases p with
    | undefined | null => nomatch hv
    | bool | int | number | str => rfl

/-! ### Parts -/

/-- What a pattern has at a path. -/
inductive PatternKind where
  /-- An array pattern. -/
  | array
  /-- An object pattern, with its keys. -/
  | object (keys : List String)
  /-- A name to assign to. -/
  | leaf (name : String)
  /-- A target that is neither a name nor a pattern. -/
  | other
deriving DecidableEq

/-- A part of a pattern. -/
structure PatternPart where
  /-- The path that leads to it. -/
  path : List PathStep
  /-- What is there. -/
  kind : PatternKind
deriving DecidableEq

namespace PatternPart

/-- Whether a part can take what the path leads to in a value. -/
def fits (h : Heap) (v : Value) (x : PatternPart) : Bool :=
  match x.kind with
  | .array => h.isIterable (h.follow v x.path)
  | .object _ => !(h.follow v x.path).isNullish
  | .leaf _ | .other => true

/-- Why a pattern refuses what does not fit. Of an object pattern the first key is named. -/
def refusal (h : Heap) (v : Value) (x : PatternPart) : Cause :=
  match x.kind with
  | .object keys => .propertyOfNullish (keys.headD "") (h.display (h.follow v x.path))
  | _ => .notIterable (h.display (h.follow v x.path))

/-- The name to assign to, with its path. -/
def leaf? (x : PatternPart) : Option (List PathStep × String) :=
  match x.kind with
  | .leaf name => some (x.path, name)
  | _ => none

/-- The names to assign to, each with its path. -/
def leaves (parts : List PatternPart) : List (List PathStep × String) :=
  parts.filterMap leaf?

end PatternPart

mutual

/-- The parts of a pattern that stands at a path. -/
def Pattern.parts (path : List PathStep) : Pattern → List PatternPart
  | .array targets => ⟨path, .array⟩ :: Target.partsFrom path 0 targets
  | .object entries => ⟨path, .object (entries.map (·.1))⟩ :: Target.partsOfEntries path entries

/-- The parts of a target. -/
def Target.parts (path : List PathStep) : Target → List PatternPart
  | .identifier name => [⟨path, .leaf name⟩]
  | .pattern p => p.parts path
  | .member _ | .invalid _ => [⟨path, .other⟩]

/-- The parts of the targets by position, from an index on. -/
def Target.partsFrom (path : List PathStep) (index : Nat) : List (Option Target) → List PatternPart
  | [] => []
  | none :: rest => Target.partsFrom path (index + 1) rest
  | some target :: rest =>
    target.parts (path ++ [.element index]) ++ Target.partsFrom path (index + 1) rest

/-- The parts of the targets by key. -/
def Target.partsOfEntries (path : List PathStep) : List (String × Target) → List PatternPart
  | [] => []
  | (key, target) :: rest =>
    target.parts (path ++ [.property key]) ++ Target.partsOfEntries path rest

end

/-- Whether all targets are names and patterns. -/
def PatternPart.IsPlain (parts : List PatternPart) : Prop :=
  ∀ x ∈ parts, x.kind ≠ .other

/-- A pattern with a hole and a pattern in it. -/
example : Pattern.parts [] (.array [some (.identifier "a"), none,
    some (.pattern (.object [("k", .identifier "b")]))]) =
      [⟨[], .array⟩, ⟨[.element 0], .leaf "a"⟩, ⟨[.element 2], .object ["k"]⟩,
        ⟨[.element 2, .property "k"], .leaf "b"⟩] := by
  decide

end ScriptOps
