import ScriptOps.Proofs.CallbackErrors

/-!
# The callbacks of an effect

The trace of a world tells what was asked of the host. `Action.callbacks` takes from it the
callbacks that one effect asks for, in their order: those of a sequence are those of its first part,
followed by those of its second part if it comes to that. Conversions, comparisons and operators
write nothing themselves, so the heap can only change where callbacks run.
-/

namespace ScriptOps

/-- The callback that an event tells of. -/
def Event.callback? : Event → Option Callback
  | .invoked c => some c
  | _ => none

/-- The callbacks that a trace tells of, the earliest first. -/
def Trace.callbacks (trace : List Event) : List Callback :=
  trace.reverse.filterMap Event.callback?

/-- The callbacks of a trace are those of its earlier part, then those of its later part. -/
theorem Trace.callbacks_append (later earlier : List Event) :
    Trace.callbacks (later ++ earlier) = Trace.callbacks earlier ++ Trace.callbacks later := by
  rw [Trace.callbacks, List.reverse_append, List.filterMap_append]
  rfl

namespace Action

variable {α β : Type}

/-- The callbacks that an effect asks for in a world, in order. -/
def callbacks (x : Action α) (w : World) : List Callback :=
  let trace := (leaves x w).trace
  Trace.callbacks (trace.take (trace.length - w.trace.length))

/-- The effect adds to the trace, and it changes the heap only if it asks for callbacks. -/
def Delegates ⦃α : Type⦄ (x : Action α) : Prop :=
  ∀ w, ∃ own, (leaves x w).trace = own ++ w.trace ∧
    (Trace.callbacks own = [] → (leaves x w).heap = w.heap)

/-- The callbacks of an effect are those of the events that it added. -/
theorem callbacks_eq {x : Action α} {w : World} {own : List Event}
    (h : (leaves x w).trace = own ++ w.trace) : x.callbacks w = Trace.callbacks own := by
  rw [callbacks, h, List.length_append, Nat.add_sub_cancel, List.take_left]

namespace Delegates

variable {x : Action α} {f : α → Action β}

/-- Without a callback the heap stays as it is. -/
theorem heap_eq (hx : Delegates x) {w : World} (h : x.callbacks w = []) :
    (leaves x w).heap = w.heap := by
  obtain ⟨own, htrace, hheap⟩ := hx w
  exact hheap ((callbacks_eq htrace).symm.trans h)

/-- An effect that changes nothing. -/
theorem of_leaves_eq (hx : ∀ w, leaves x w = w) : Delegates x :=
  fun w => ⟨[], congrArg World.trace (hx w), fun _ => congrArg World.heap (hx w)⟩

/-- The callbacks of a sequence. -/
theorem callbacks_bind (hx : Delegates x) (hf : ∀ a, Delegates (f a)) (w : World) :
    (x >>= f).callbacks w = x.callbacks w ++ match x w with
      | .ok a w' => (f a).callbacks w'
      | .error _ _ => [] := by
  obtain ⟨own, htrace, -⟩ := hx w
  rw [callbacks_eq htrace]
  have hleaves := leaves_bind x f w
  unfold leaves at htrace
  cases hrun : x w with
  | ok a w' =>
    obtain ⟨later, hlater, -⟩ := hf a w'
    rw [hrun] at hleaves htrace
    have hboth : (leaves (x >>= f) w).trace = (later ++ own) ++ w.trace := by
      rw [hleaves, hlater, htrace, List.append_assoc]
    dsimp only
    rw [callbacks_eq hboth, callbacks_eq hlater, Trace.callbacks_append]
  | error e w' =>
    rw [hrun] at hleaves htrace
    have hboth : (leaves (x >>= f) w).trace = own ++ w.trace := by rw [hleaves, htrace]
    rw [callbacks_eq hboth, List.append_nil]

/-- A sequence delegates if its parts do. -/
theorem bind (hx : Delegates x) (hf : ∀ a, Delegates (f a)) : Delegates (x >>= f) := by
  intro w
  obtain ⟨own, htrace, hheap⟩ := hx w
  rw [leaves_bind]
  unfold leaves at htrace hheap
  cases hrun : x w with
  | ok a w' =>
    rw [hrun] at htrace hheap
    obtain ⟨later, hlater, hheap'⟩ := hf a w'
    refine ⟨later ++ own, by rw [hlater, htrace, List.append_assoc], fun hnone => ?_⟩
    rw [Trace.callbacks_append, List.append_eq_nil_iff] at hnone
    exact (hheap' hnone.2).trans (hheap hnone.1)
  | error e w' =>
    rw [hrun] at htrace hheap
    exact ⟨own, htrace, hheap⟩

/-- A request is a callback. -/
theorem ask (host : Host) (c : Callback) : Delegates (host.ask c) := by
  intro w
  obtain ⟨own, htrace, -⟩ := OnlyWrites.ask host c w
  refine ⟨own ++ [.invoked c], by rw [htrace, List.append_assoc]; rfl, fun hnone => ?_⟩
  rw [Trace.callbacks_append] at hnone
  nomatch (List.append_eq_nil_iff.1 hnone).1

theorem fail (c : Cause) : Delegates (Action.fail c : Action α) :=
  of_leaves_eq fun _ => rfl

/-- Everything that is built from the steps of conversions delegates. -/
theorem basis (host : Host) : Action.Basis host (fun _ => True) Delegates where
  pure _ := of_leaves_eq fun _ => rfl
  bind := bind
  fail _ := fail _
  look hf := bind (of_leaves_eq fun _ => rfl) fun h => hf h trivial
  compared x y _ := ⟨[.compared x y], rfl, fun _ => rfl⟩
  ask := ask host

/-- The conversion of an object delegates, however deep it may nest. -/
theorem objectPrimitive (host : Host) (depth : Nat) (hint : Hint) (id : ObjectId) :
    Delegates (Coercion.objectPrimitive host depth hint id) := by
  induction depth generalizing hint id with
  | zero => exact fail _
  | succ depth ih =>
    exact (basis host).objectPrimitive_succ (fun _ _ element _ => ih .string element) hint

/-- So does the conversion of any value. -/
theorem toPrimitive (host : Host) (hint : Hint) (v : Value) :
    Delegates (host.toPrimitive hint v) := by
  cases v with
  | primitive p => exact (basis host).pure p
  | object id => exact objectPrimitive host _ hint id

/-- Operators change the heap only through callbacks. -/
theorem evaluate (host : Host) (op : BinaryOp) (l r : Value) : Delegates (op.evaluate host l r) :=
  (basis host).evaluate op (fun hint => toPrimitive host hint l)
    fun hint => toPrimitive host hint r

end Delegates

/-! ### Effects without callbacks -/

/-- The effect asks for no callback, whatever it is for. -/
structure IsSilent (x : Action α) : Prop where
  delegates : Delegates x
  callbacks_eq : ∀ w, x.callbacks w = []

namespace IsSilent

variable {x : Action α} {f : α → Action β}

/-- An effect that leaves the world as it is is silent. -/
theorem of_leaves_eq (hx : ∀ w, leaves x w = w) : IsSilent x where
  delegates := .of_leaves_eq hx
  callbacks_eq w := by
    have htrace : (leaves x w).trace = [] ++ w.trace := congrArg World.trace (hx w)
    exact Action.callbacks_eq htrace

theorem pure (a : α) : IsSilent (pure a : Action α) :=
  of_leaves_eq fun _ => rfl

theorem fail (c : Cause) : IsSilent (Action.fail c : Action α) :=
  of_leaves_eq fun _ => rfl

/-- A comparison by the host is no callback. -/
theorem compared (a b : HostObject) : IsSilent (Action.observe (.compared a b)) where
  delegates _ := ⟨[.compared a b], rfl, fun _ => rfl⟩
  callbacks_eq w := by
    have htrace : (leaves (Action.observe (.compared a b)) w).trace =
        [.compared a b] ++ w.trace := rfl
    exact Action.callbacks_eq htrace

/-- What is computed in silence adds no callback. -/
theorem callbacks_bind (hx : Delegates x) (hf : ∀ a, IsSilent (f a)) (w : World) :
    (x >>= f).callbacks w = x.callbacks w := by
  rw [hx.callbacks_bind fun a => (hf a).delegates]
  cases x w with
  | ok a w' =>
    dsimp only
    rw [(hf a).callbacks_eq, List.append_nil]
  | error e w' => exact List.append_nil _

/-- A sequence is silent if its parts are. -/
theorem bind (hx : IsSilent x) (hf : ∀ a, IsSilent (f a)) : IsSilent (x >>= f) where
  delegates := hx.delegates.bind fun a => (hf a).delegates
  callbacks_eq w := (callbacks_bind hx.delegates hf w).trans (hx.callbacks_eq w)

/-- A silent effect leaves the heap alone. -/
theorem heap_eq (hx : IsSilent x) (w : World) : (leaves x w).heap = w.heap :=
  hx.delegates.heap_eq (hx.callbacks_eq w)

/-- Objects of the host are compared by the host, but not converted. -/
theorem strictEquals (host : Host) (l r : Value) : IsSilent (host.strictEquals l r) := by
  have hobserve : IsSilent (host.observeComparison l r) := by
    refine bind (of_leaves_eq fun _ => rfl) fun h => ?_
    split
    · split
      · exact compared _ _
      · exact pure _
    · exact pure _
  exact hobserve.bind fun _ => of_leaves_eq fun _ => rfl

/-- The operator `instanceof` asks the host for nothing. -/
theorem isInstanceOf (l r : Value) : IsSilent (isInstanceOf l r) := by
  refine bind (of_leaves_eq fun _ => rfl) fun h => of_leaves_eq fun w => ?_
  split
  · rfl
  · split
    · rfl
    · split
      · rfl
      · split <;> rfl
    · rfl

end IsSilent

end Action

end ScriptOps
