import ScriptOps.Proofs.Contracts

/-!
# Where errors have their places

Each kind of node gives the errors of its own operation its position, and leaves those that have a
place as they are. So with callbacks whose errors have no place of their own, an error of evaluation
has the position of a node of the tree, or it took one of the ways out that pass by every node.
These ways are few, and each needs a feature of the tree: `Eval.Escapes`.
-/

namespace ScriptOps

open Eval

/-! ### Errors of callbacks -/

/-- The errors that the reaction may come to have no place. -/
def Reaction.Unlocated : Reaction → Prop
  | answer _ => True
  | fail e => e.span? = none
  | write _ _ _ next => ∀ accepted, (next accepted).Unlocated
  | create _ next => ∀ id, (next id).Unlocated
  | link _ _ next => ∀ accepted, (next accepted).Unlocated

/-- The callbacks of the host give their errors no place. -/
def Host.Unlocated (host : Host) : Prop :=
  ∀ (c : Callback) (w : World), (host.react c w).Unlocated

/-- The effect gives its errors no place. -/
def Action.Unlocated ⦃α : Type⦄ (x : Action α) : Prop :=
  ∀ ⦃w w' : World⦄ ⦃e : Error⦄, x w = .error e w' → e.span? = none

namespace Action.Unlocated

variable {α β : Type}

/-- An effect that cannot fail has no errors to give a place. -/
theorem of_total {x : Action α} (hx : ∀ w, ∃ a w', x w = .ok a w') : Unlocated x := by
  intro w w' e herror
  obtain ⟨a, w₁, hok⟩ := hx w
  nomatch hok.symm.trans herror

/-- A sequence raises errors without a place if its parts do. -/
theorem bind {x : Action α} {f : α → Action β} (hx : Unlocated x) (hf : ∀ a, Unlocated (f a)) :
    Unlocated (x >>= f) := by
  intro w w' e herror
  cases hrun : x w with
  | ok a w₁ =>
    rw [bind_of_ok hrun] at herror
    exact hf a herror
  | error e₁ w₁ =>
    rw [bind_of_error hrun] at herror
    cases herror
    exact hx hrun

/-- An error without a place is one. -/
theorem throw {e : Error} (he : e.span? = none) : Unlocated (throw e : Action α) := by
  intro w w' e' herror
  cases herror
  exact he

/-- A reaction raises errors without a place if the errors in it have none. -/
theorem run {r : Reaction} (hr : r.Unlocated) : Unlocated r.run := by
  induction r with
  | answer v => exact of_total fun w => ⟨v, w, rfl⟩
  | fail e => exact throw hr
  | write id key v next ih =>
    have hassign : Unlocated (Action.assign id key v) := of_total (Action.assign_total id key v)
    have hobserve (e : Event) : Unlocated (Action.observe e) := of_total fun _ => ⟨_, _, rfl⟩
    exact hassign.bind fun accepted => (hobserve _).bind fun _ => ih accepted (hr accepted)
  | create kind next ih =>
    have hcreate : Unlocated (Action.create kind) := of_total fun _ => ⟨_, _, rfl⟩
    exact hcreate.bind fun id => ih id (hr id)
  | link id prototype? next ih =>
    have hlink : Unlocated (Action.link id prototype?) := of_total (Action.link_total id prototype?)
    exact hlink.bind fun accepted => ih accepted (hr accepted)

/-- So do the callbacks of a host whose errors have none. -/
theorem ask {host : Host} (hhost : host.Unlocated) (c : Callback) : Unlocated (host.ask c) := by
  intro w w' e herror
  have hrun := run (hhost c w)
  exact hrun herror

/-- So it is with everything that is built from the steps of such a host. -/
theorem closed {host : Host} (hhost : host.Unlocated) : Action.Closed host Unlocated where
  pure a := of_total fun w => ⟨a, w, rfl⟩
  bind := bind
  fail _ := throw rfl
  heap := of_total fun _ => ⟨_, _, rfl⟩
  create _ := of_total fun _ => ⟨_, _, rfl⟩
  createFunction _ _ := of_total fun _ => ⟨_, _, rfl⟩
  assign id key v := of_total (Action.assign_total id key v)
  compared _ _ := of_total fun _ => ⟨_, _, rfl⟩
  ask := ask hhost

/-- Naming a function raises nothing. -/
theorem nameFunction (v : Value) (name : String) : Unlocated (Action.nameFunction v name) := by
  cases v with
  | primitive p => exact of_total fun w => ⟨(), w, rfl⟩
  | object id => exact of_total fun _ => ⟨_, _, rfl⟩

end Action.Unlocated

/-! ### Errors of evaluation -/

/-- The error has the position of a node of the tree. -/
def Node.Locates (n : Node) (e : Error) : Prop :=
  ∃ span, .position span ∈ n.features ∧ e.span? = some span

/-- An identifier, a member, a call, an operator and an assignment have positions that are not
dummies. -/
def Node.HasPositions (n : Node) : Prop :=
  ∀ span, .position span ∈ n.features → span.isDummy = false

/-- An error that an operation of the tree gives its position has the position of a node then. -/
theorem Node.locates_locate {n : Node} (hn : n.HasPositions) {span : Span} {e : Error}
    (hspan : .position span ∈ n.features) (he : n.Locates e ∨ e.span? = none) :
    n.Locates (e.locate span) := by
  unfold Error.locate
  rcases he with ⟨place, hplace, hsome⟩ | hnone
  · rw [hsome]
    exact ⟨place, hplace, hsome⟩
  · rw [hnone, hn span hspan]
    exact ⟨span, hspan, rfl⟩

/-- Having a place, or escaping without one, is a contract of evaluation. Nothing is said about the
bindings. -/
theorem Node.locates_contract {s : Settings} (hhost : s.host.Unlocated) {n : Node}
    (hn : n.HasPositions) :
    Contract s (· ∈ n.features) Action.Unlocated (fun _ _ => True)
      (fun e => n.Locates e ∨ e.span? = none)
      fun e => n.Locates e ∨ e.span? = none ∧ Escapes s (· ∈ n.features) e.cause where
  steps := Action.Unlocated.closed hhost
  naming := Action.Unlocated.nameFunction
  refl _ := trivial
  trans _ _ _ _ _ := trivial
  setOwn _ _ _ := trivial
  declare _ _ _ _ := trivial
  failed hx herror := .inr (hx herror)
  raw he := he.imp_right And.left
  cause _ := .inr rfl
  place hspan he := .inl (Node.locates_locate hn hspan he)
  escape hc := .inr ⟨rfl, hc⟩

/-- Errors of evaluation are located, but for those that escape. With callbacks whose errors have no
place, an error of a tree has the position of one of its nodes, or it has no place and its cause is
one of a few: a reserved name that strict code refuses before an assignment with an operator has a
place, or a failure of a pattern that no operation in it gives a place. So it has the position of a
node whenever the tree has neither. -/
theorem errors_located {s : Settings} {n : Node} {m m' : Machine} {e : Error}
    (hm : m.references.Reachable) (hhost : s.host.Unlocated) (hn : n.HasPositions)
    (h : evaluate s n m = .error e m') :
    (n.Locates e ∨ e.span? = none ∧ Escapes s (· ∈ n.features) e.cause) ∧
      ((∀ c, ¬Escapes s (· ∈ n.features) c) → n.Locates e) := by
  have hcontract := Node.locates_contract hhost hn
  have hrun := hcontract.evaluate n (fun _ hf => hf) hm.valid
  rw [h] at hrun
  cases hrun with
  | error _ _ he =>
    refine ⟨he, fun hfree => ?_⟩
    rcases he with hlocated | ⟨-, hescapes⟩
    · exact hlocated
    · exact absurd hescapes (hfree e.cause)

/-- The refusal of the plain assignment `eval = 1` in strict code has the position of the
assignment. -/
theorem errors_located_plain :
    let s : Settings :=
      ⟨⟨fun _ _ => .answer .undefined, fun _ => false, fun _ => none, 0⟩, true, .elementwise⟩
    let n : Node := .assign .assign (.identifier "eval") (.constant (.primitive (.int 1))) ⟨0, 8⟩
    let m : Machine := .start ⟨.empty, []⟩ none .empty
    evaluate s n m = .error ⟨.reservedName "eval", some ⟨0, 8⟩⟩ m ∧
      n.Locates ⟨.reservedName "eval", some ⟨0, 8⟩⟩ := by
  intro s n m
  have hfails : evaluate s n m = .error ⟨.reservedName "eval", some ⟨0, 8⟩⟩ m := rfl
  have hfeatures : n.features = [.position ⟨0, 8⟩, .written (some .assign) "eval"] := rfl
  have hhost : s.host.Unlocated := fun _ _ => trivial
  have hpositions : n.HasPositions := by
    intro span hspan
    obtain rfl : span = ⟨0, 8⟩ := by simpa [hfeatures] using hspan
    rfl
  have hfree : ∀ c, ¬Escapes s (· ∈ n.features) c := by
    intro c hescapes
    rw [hfeatures] at hescapes
    cases hescapes with
    | reserved hop _ hF =>
      obtain ⟨rfl, -⟩ := by simpa using hF
      exact hop rfl
    | reservedElement _ hF | constantElement hF | readOnlyElement _ hF | undeclaredElement _ hF
      | invalidElement hF | notIterable hF | nullish hF => simp at hF
  exact ⟨hfails, (errors_located .empty hhost hpositions hfails).2 hfree⟩

/-- The refusal of the compound assignment `eval += 1` has no place at all. -/
theorem errors_located_fails_compound :
    let s : Settings :=
      ⟨⟨fun _ _ => .answer .undefined, fun _ => false, fun _ => none, 0⟩, true, .elementwise⟩
    let n : Node := .assign .add (.identifier "eval") (.constant (.primitive (.int 1))) ⟨0, 9⟩
    let m : Machine := .start ⟨.empty, []⟩ none .empty
    (s.host.Unlocated ∧ n.HasPositions) ∧
      evaluate s n m = .error ⟨.reservedName "eval", none⟩ m ∧
        ¬n.Locates ⟨.reservedName "eval", none⟩ := by
  intro s n m
  refine ⟨⟨fun _ _ => trivial, ?_⟩, rfl, ?_⟩
  · intro span hspan
    have hfeatures : n.features = [.position ⟨0, 9⟩, .written (some .add) "eval"] := rfl
    obtain rfl : span = ⟨0, 9⟩ := by simpa [hfeatures] using hspan
    rfl
  · rintro ⟨span, -, hsome⟩
    nomatch hsome

end ScriptOps
