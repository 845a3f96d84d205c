import ScriptOps.Proofs.DirectAssignment
import ScriptOps.Proofs.NameResolution
import ScriptOps.Proofs.PatternParts
import ScriptOps.Proofs.PoolBalance

/-!
# Assignments to patterns

Taking a value apart element by element carries out the parts of the pattern in their order. A
pattern asks whether the value at its path fits, and a leaf writes the value at its path to its
name. None of this touches the heap, so that what a path leads to stays the same while the leaves
are written. The first part that does not fit ends the assignment; the leaves before it have been
written by then.

The invariant of the run is `PatternReady`: the leaves that are still to come resolve to mutable
bindings. What a stretch of the run does is `Machine.Takes`.
-/

namespace ScriptOps

open Eval

/-! ### Names that can be written -/

namespace Environment

/-- A name resolves to a scope that binds it, and takes new values there. -/
structure Offers (e : Environment) (name : String) (id : ScopeId) : Prop where
  resolved : e.resolve? name = some id
  isMutable : (e.store.scope id).mutability? name = some .mutable

variable {e e' : Environment} {name key : String} {id other : ScopeId} {v : Value}

/-- A name that takes new values is given them. -/
theorem Offers.setOwn (h : e.Offers name id) (v : Value) : ∃ e', e.setOwn id name v = .ok e' := by
  refine ⟨{ e with store := e.store.define id name v .mutable }, ?_⟩
  rw [Environment.setOwn, ScopeStore.setOwn, Scope.setOwn, h.isMutable]
  rfl

/-- Giving a declared name a new value does not change which names a scope declares. -/
theorem Rebinds.declares_eq (h : e.Rebinds id name v e')
    (hdeclares : (e.store.scope id).declares name = true) (other : ScopeId) (key : String) :
    (e'.store.scope other).declares key = (e.store.scope other).declares key := by
  by_cases hsame : (other, key) = (id, name)
  · cases hsame
    change (e'.binding? id name).isSome = _
    rw [h.bound, hdeclares]
    rfl
  · change (e'.binding? other key).isSome = (e.binding? other key).isSome
    rw [h.frame other key hsame]

/-- Rebinding a declared name in a scope leaves the scope that every name resolves to. -/
theorem Rebinds.resolve?_eq (h : e.Rebinds id name v e')
    (hdeclares : (e.store.scope id).declares name = true) (key : String) :
    e'.resolve? key = e.resolve? key := by
  unfold Environment.resolve?
  rw [h.stack]
  simp only [h.declares_eq hdeclares]

/-- Nor does it take the other names their values. -/
theorem Offers.of_rebinds (hoffers : e.Offers key other) (h : e.Rebinds id name v e')
    (hdeclares : (e.store.scope id).declares name = true) : e'.Offers key other where
  resolved := (h.resolve?_eq hdeclares key).trans hoffers.resolved
  isMutable := by
    change (e'.binding? other key).map (·.mutability) = _
    by_cases hsame : (other, key) = (id, name)
    · cases hsame
      rw [h.bound]
      rfl
    · rw [h.frame other key hsame]
      exact hoffers.isMutable

/-- A name that was declared nowhere comes in the way of no other one. -/
theorem Offers.of_defineGlobal (hoffers : e.Offers key other) (hname : e.resolve? name = none)
    (v : Value) : (e.defineGlobal name v .mutable).Offers key other := by
  have hne : key ≠ name := by
    rintro rfl
    nomatch hname.symm.trans hoffers.resolved
  have hbinding (i : ScopeId) : (e.defineGlobal name v .mutable).binding? i key =
      e.binding? i key := by
    rw [Environment.defineGlobal, binding?_define, if_neg]
    rintro ⟨-, heq, -⟩
    exact hne heq
  constructor
  · rw [← hoffers.resolved]
    change e.stack.find? (fun i => ((e.defineGlobal name v .mutable).binding? i key).isSome) =
      e.stack.find? fun i => (e.binding? i key).isSome
    simp only [hbinding]
  · change ((e.defineGlobal name v .mutable).binding? other key).map (·.mutability) = _
    rw [hbinding]
    exact hoffers.isMutable

/-- Evaluation keeps the names that can be written. -/
theorem offers_contract (s : Settings) :
    Contract s (fun _ => True) (fun _ _ => True)
      (fun e e' => ∀ name id, e.Offers name id → e'.Offers name id) (fun _ => True)
      fun _ => True where
  steps := .trivial s.host
  naming _ _ := trivial
  refl _ _ _ h := h
  trans _ _ _ h₁ h₂ name id h := h₂ name id (h₁ name id h)
  setOwn {_ name id _ e _} _ _ hset key other h := by
    have hmutable := mutability?_of_setOwn hset
    have hdeclares : (e.store.scope id).declares name = true := by
      obtain ⟨b, hb, -⟩ := Option.map_eq_some_iff.1 hmutable
      exact Option.isSome_iff_exists.2 ⟨b, hb⟩
    exact h.of_rebinds (rebinds_setOwn hdeclares hset) hdeclares
  declare _ _ _ hresolve _ _ h := h.of_defineGlobal hresolve _
  failed _ _ := trivial
  raw _ := trivial
  cause _ := trivial
  place _ _ := trivial
  escape _ := trivial

end Environment

/-! ### What a stretch of a run does -/

/-- Some leaves have taken their values, and nothing else has happened. Each leaf is bound, in the
scope that it resolves to, to what its path leads to; all other bindings are as before. So are the
world, the operator methods, the scopes, the references in progress and the counters, but for one
reference that was counted for each leaf. -/
structure Machine.Takes (h : Heap) (v : Value) (leaves : List (List PathStep × String))
    (m m' : Machine) : Prop where
  world : m'.world = m.world
  resolver : m'.resolver? = m.resolver?
  stack : m'.env.stack = m.env.stack
  size : m'.env.store.scopes.size = m.env.store.scopes.size
  parent : ∀ id, (m'.env.store.scope id).parent? = (m.env.store.scope id).parent?
  resolves : ∀ name, m'.env.resolve? name = m.env.resolve? name
  bound : ∀ leaf ∈ leaves, ∃ id, m.env.resolve? leaf.2 = some id ∧
    m'.env.binding? id leaf.2 = some ⟨h.follow v leaf.1, .mutable⟩
  frame : ∀ id name, (∀ leaf ∈ leaves, leaf.2 = name → m.env.resolve? name ≠ some id) →
    m'.env.binding? id name = m.env.binding? id name
  references : ∀ id, m'.references.get? id = m.references.get? id
  valid : m.references.Valid → m'.references.Valid
  stats : m'.stats =
    { m.stats with referencesAcquired := m.stats.referencesAcquired + leaves.length }

namespace Machine.Takes

variable {h : Heap} {v : Value} {a b : List (List PathStep × String)} {m m₁ m₂ : Machine}

theorem refl (h : Heap) (v : Value) (m : Machine) : m.Takes h v [] m where
  world := rfl
  resolver := rfl
  stack := rfl
  size := rfl
  parent _ := rfl
  resolves _ := rfl
  bound _ hleaf := nomatch hleaf
  frame _ _ _ := rfl
  references _ := rfl
  valid hm := hm
  stats := rfl

/-- One stretch after the other, with different leaves. -/
theorem append (h₁ : m.Takes h v a m₁) (h₂ : m₁.Takes h v b m₂)
    (hne : ∀ x ∈ a, ∀ y ∈ b, x.2 ≠ y.2) : m.Takes h v (a ++ b) m₂ where
  world := h₂.world.trans h₁.world
  resolver := h₂.resolver.trans h₁.resolver
  stack := h₂.stack.trans h₁.stack
  size := h₂.size.trans h₁.size
  parent id := (h₂.parent id).trans (h₁.parent id)
  resolves name := (h₂.resolves name).trans (h₁.resolves name)
  bound leaf hleaf := by
    rcases List.mem_append.1 hleaf with hfirst | hsecond
    · obtain ⟨id, hresolve, hbinding⟩ := h₁.bound leaf hfirst
      refine ⟨id, hresolve, ?_⟩
      -- the second stretch writes other names
      rw [h₂.frame id leaf.2 fun y hy heq => absurd heq.symm (hne leaf hfirst y hy)]
      exact hbinding
    · obtain ⟨id, hresolve, hbinding⟩ := h₂.bound leaf hsecond
      exact ⟨id, (h₁.resolves leaf.2).symm.trans hresolve, hbinding⟩
  frame id name hfree := by
    rw [h₂.frame id name fun y hy heq => ?_,
      h₁.frame id name fun x hx => hfree x (List.mem_append_left b hx)]
    rw [h₁.resolves]
    exact hfree y (List.mem_append_right a hy) heq
  references id := (h₂.references id).trans (h₁.references id)
  valid hm := h₂.valid (h₁.valid hm)
  stats := by
    rw [h₂.stats, h₁.stats, List.length_append, Nat.add_assoc]

/-- The names that can be written stay so. -/
theorem offers (h : m.Takes h v a m₁) {name : String} {id : ScopeId}
    (hoffers : m.env.Offers name id) : m₁.env.Offers name id where
  resolved := (h.resolves name).trans hoffers.resolved
  isMutable := by
    change (m₁.env.binding? id name).map (·.mutability) = _
    by_cases htaken : ∃ leaf ∈ a, leaf.2 = name
    · obtain ⟨leaf, hleaf, rfl⟩ := htaken
      obtain ⟨scope, hresolve, hbinding⟩ := h.bound leaf hleaf
      obtain rfl := Option.some.inj (hresolve.symm.trans hoffers.resolved)
      rw [hbinding]
      rfl
    · rw [h.frame id name fun leaf hleaf heq => absurd ⟨leaf, hleaf, heq⟩ htaken]
      exact hoffers.isMutable

/-- Looking up a leaf finds its value. -/
theorem lookup?_eq (htakes : m.Takes h v a m₁) (hlinked : m₁.env.IsLinked)
    {leaf : List PathStep × String} (hleaf : leaf ∈ a) :
    m₁.env.lookup? leaf.2 = some (h.follow v leaf.1) := by
  obtain ⟨id, hresolve, hbinding⟩ := htakes.bound leaf hleaf
  rw [hlinked.lookup?_eq, htakes.resolves, hresolve]
  change (m₁.env.binding? id leaf.2).map (·.value) = _
  rw [hbinding]
  rfl

end Machine.Takes

/-- Writing a name that can be written takes its value there, through a slot that is given back. -/
theorem Eval.assignElement_takes {s : Settings} {name : String} {m : Machine} {id : ScopeId}
    (hname : s.refuses name = false) (hm : m.references.Valid) (hoffers : m.env.Offers name id)
    (h : Heap) (v : Value) (path : List PathStep) :
    ∃ m', assignElement s name (h.follow v path) m = .ok () m' ∧
      m.Takes h v [(path, name)] m' := by
  obtain ⟨env, hset⟩ := hoffers.setOwn (h.follow v path)
  have hdeclares := Environment.declares_of_resolve? hoffers.resolved
  have hrebinds := Environment.rebinds_setOwn hdeclares hset
  have hreleased := Machine.ahead_release_acquire (.binding name id) hm
  -- the binding is written while the pool holds the reference, which is then released
  have hwrite : (Reference.binding name id).write s (h.follow v path)
      (m.acquire (.binding name id)).2 =
        .ok () { (m.acquire (.binding name id)).2 with env } := by
    change commit s name (m.env.setOwn id name (h.follow v path)) _ = _
    rw [hset]
    rfl
  have hrun : assignElement s name (h.follow v path) m = .ok ()
      { (m.acquire (.binding name id)).2.release (m.acquire (.binding name id)).1 with env } := by
    rw [assignElement, bind_of_ok (checkReserved_of_not_refuses hname m),
      bind_of_ok (nameReference_eq_ofName name m), hoffers.resolved,
      withReference_putValue s _ _ hm]
    exact withReference_of_ok
      (x := fun _ => (Reference.binding name id).write s (h.follow v path)) hwrite
  refine ⟨_, hrun, ?_⟩
  exact
    { world := hreleased.world
      resolver := hreleased.resolver
      stack := hrebinds.stack
      size := hrebinds.size
      parent := hrebinds.parent
      resolves := hrebinds.resolve?_eq hdeclares
      bound := by
        intro leaf hleaf
        obtain rfl := List.mem_singleton.1 hleaf
        exact ⟨id, hoffers.resolved, hrebinds.bound⟩
      frame := by
        intro other key hfree
        refine hrebinds.frame other key ?_
        rintro ⟨⟩
        exact hfree _ (List.mem_singleton_self _) rfl hoffers.resolved
      references := hreleased.references
      valid := fun _ => (hm.acquire _).release _
      stats := hreleased.stats }

/-! ### Outcomes of a run -/

section Lift

variable {α : Type} {x : Action α} {m : Machine}

/-- An action that succeeds without an effect does so as a step of the evaluation. -/
theorem Eval.lift_of_ok {a : α} (h : x m.world = .ok a m.world) : lift x m = .ok a m := by
  rw [lift, h]

/-- An action that fails without an effect does so as a step of the evaluation. -/
theorem Eval.lift_of_error {e : Error} (h : x m.world = .error e m.world) :
    lift x m = .error e m := by
  rw [lift, h]

end Lift

open PatternPart

/-- What carrying out the parts of a pattern comes to. Either all fit and all leaves have taken
their values, or the first one that does not fit has refused, and the leaves before it have taken
theirs. -/
inductive PatternOutcome (h : Heap) (v : Value) (parts : List PatternPart) (m : Machine) :
    EStateM.Result Error Machine Unit → Prop where
  | ok {m' : Machine} (hfits : ∀ x ∈ parts, x.fits h v = true)
    (htakes : m.Takes h v (leaves parts) m') : PatternOutcome h v parts m (.ok () m')
  | error {m' : Machine} (before after : List PatternPart) {x : PatternPart}
    (hparts : parts = before ++ x :: after) (hbefore : ∀ y ∈ before, y.fits h v = true)
    (hx : x.fits h v = false) (htakes : m.Takes h v (leaves before) m') :
    PatternOutcome h v parts m (.error (.ofCause (x.refusal h v)) m')

namespace PatternOutcome

variable {h : Heap} {v : Value} {a b : List PatternPart} {x : PatternPart} {m : Machine}
  {outcome : EStateM.Result Error Machine Unit}

/-- The part that comes first does not fit. -/
theorem refused (hx : x.fits h v = false) (rest : List PatternPart) :
    PatternOutcome h v (x :: rest) m (.error (.ofCause (x.refusal h v)) m) :=
  .error [] rest rfl (fun _ hy => nomatch hy) hx (.refl h v m)

/-- A pattern that fits writes nothing itself. -/
theorem cons (hx : x.fits h v = true) (hleaf : x.leaf? = none)
    (hrest : PatternOutcome h v a m outcome) : PatternOutcome h v (x :: a) m outcome := by
  have hleaves (parts : List PatternPart) : leaves (x :: parts) = leaves parts :=
    List.filterMap_cons_none hleaf
  cases hrest with
  | ok hfits htakes =>
    exact .ok (List.forall_mem_cons.2 ⟨hx, hfits⟩) ((hleaves a).symm ▸ htakes)
  | @error m' before after bad hparts hbefore hbad htakes =>
    exact .error (x :: before) after (by rw [hparts]; rfl)
      (List.forall_mem_cons.2 ⟨hx, hbefore⟩) hbad ((hleaves before).symm ▸ htakes)

/-- One stretch of parts after the other. -/
theorem bind {run next : Eval Unit} (hrun : PatternOutcome h v a m (run m))
    (hnext : ∀ m', m.Takes h v (leaves a) m' → PatternOutcome h v b m' (next m'))
    (hne : ∀ x ∈ leaves a, ∀ y ∈ leaves b, x.2 ≠ y.2) :
    PatternOutcome h v (a ++ b) m ((run >>= fun _ => next) m) := by
  cases hfirst : run m with
  | error e m₁ =>
    rw [bind_of_error hfirst]
    rw [hfirst] at hrun
    cases hrun with
    | @error _ before after x hparts hbefore hx htakes =>
      refine .error before (after ++ b) ?_ hbefore hx htakes
      rw [hparts, List.append_assoc]
      rfl
  | ok _ m₁ =>
    rw [bind_of_ok hfirst]
    rw [hfirst] at hrun
    cases hrun with
    | ok hfits htakes =>
      have hsecond := hnext m₁ htakes
      generalize next m₁ = outcome at hsecond ⊢
      cases hsecond with
      | ok hfits' htakes' =>
        refine .ok (List.forall_mem_append.2 ⟨hfits, hfits'⟩) ?_
        rw [leaves, List.filterMap_append]
        exact htakes.append htakes' hne
      | @error m₂ before after x hparts hbefore hx htakes' =>
        refine .error (a ++ before) after ?_
          (List.forall_mem_append.2 ⟨hfits, hbefore⟩) hx ?_
        · rw [hparts, List.append_assoc]
        · -- the leaves that the second stretch got to are among its own
          have hsub : ∀ y ∈ leaves before, y ∈ leaves b := by
            intro y hy
            rw [hparts, leaves, List.filterMap_append]
            exact List.mem_append_left _ hy
          rw [leaves, List.filterMap_append]
          exact htakes.append htakes' fun x hx y hy => hne x hx y (hsub y hy)

/-- A run succeeds exactly when all parts fit. -/
theorem ok_iff (houtcome : PatternOutcome h v a m outcome) :
    (∃ n, outcome = .ok () n) ↔ ∀ x ∈ a, x.fits h v = true := by
  cases houtcome with
  | @ok n hfits htakes => exact ⟨fun _ => hfits, fun _ => ⟨n, rfl⟩⟩
  | @error n before after x hparts hbefore hx htakes =>
    refine ⟨fun ⟨_, hok⟩ => (nomatch hok), fun hfits => ?_⟩
    have hmem : x ∈ a := hparts ▸ List.mem_append_right before List.mem_cons_self
    exact Bool.noConfusion (hx.symm.trans (hfits x hmem))

end PatternOutcome

/-! ### The invariant of a run -/

/-- The parts to come are patterns and different names, each resolving to a mutable binding and not
refused. -/
structure PatternReady (s : Settings) (h : Heap) (parts : List PatternPart) (m : Machine) :
    Prop where
  heap : m.world.heap = h
  valid : m.references.Valid
  plain : IsPlain parts
  nodup : ((leaves parts).map (·.2)).Nodup
  offered : ∀ leaf ∈ leaves parts, s.refuses leaf.2 = false ∧ ∃ id, m.env.Offers leaf.2 id

namespace PatternReady

variable {s : Settings} {h : Heap} {v : Value} {a b : List PatternPart} {x : PatternPart}
  {m m' : Machine}

/-- What holds of a run holds of a part of it. -/
theorem sublist (hready : PatternReady s h b m) (hsub : a.Sublist b) : PatternReady s h a m where
  heap := hready.heap
  valid := hready.valid
  plain x hx := hready.plain x (hsub.mem hx)
  nodup := hready.nodup.sublist ((hsub.filterMap leaf?).map _)
  offered leaf hleaf := hready.offered leaf ((hsub.filterMap leaf?).mem hleaf)

/-- Leaves that were written before do not matter. -/
theorem taken (hready : PatternReady s h b m) (htakes : m.Takes h v (leaves a) m') :
    PatternReady s h b m' where
  heap := htakes.world ▸ hready.heap
  valid := htakes.valid hready.valid
  plain := hready.plain
  nodup := hready.nodup
  offered leaf hleaf := by
    obtain ⟨hname, id, hoffers⟩ := hready.offered leaf hleaf
    exact ⟨hname, id, htakes.offers hoffers⟩

/-- A machine that is ready for some parts is ready for all but the first. -/
theorem tail (hready : PatternReady s h (x :: a) m) : PatternReady s h a m :=
  hready.sublist (List.sublist_cons_self x a)

/-- A machine that is ready for two runs of parts is ready for the first. -/
theorem left (hready : PatternReady s h (a ++ b) m) : PatternReady s h a m :=
  hready.sublist (List.sublist_append_left a b)

/-- Once the first run has been taken, the machine is ready for the second. -/
theorem right (hready : PatternReady s h (a ++ b) m) (htakes : m.Takes h v (leaves a) m') :
    PatternReady s h b m' :=
  (hready.sublist (List.sublist_append_right a b)).taken htakes

/-- Two runs that are ready together assign to different names. -/
theorem ne (hready : PatternReady s h (a ++ b) m) : ∀ x ∈ leaves a, ∀ y ∈ leaves b, x.2 ≠ y.2 := by
  have hnodup := hready.nodup
  rw [leaves, List.filterMap_append, List.map_append, List.nodup_append] at hnodup
  intro x hx y hy
  exact hnodup.2.2 _ (List.mem_map_of_mem hx) _ (List.mem_map_of_mem hy)

end PatternReady

section Run

variable {s : Settings} {h : Heap}

mutual

/-- The run of a target. -/
theorem assignTarget_outcome (hs : s.destructuring = .elementwise) (v : Value) :
    (t : Target) → (path : List PathStep) → {m : Machine} → PatternReady s h (t.parts path) m →
      PatternOutcome h v (t.parts path) m (assignTarget s (h.follow v path) t m)
  | .identifier name, path, m, hready => by
    rw [Target.parts] at hready ⊢
    obtain ⟨hname, id, hoffers⟩ := hready.offered (path, name) (List.mem_singleton_self _)
    obtain ⟨m', hrun, htakes⟩ := assignElement_takes hname hready.valid hoffers h v path
    rw [assignTarget, hrun]
    refine .ok (fun x hx => ?_) htakes
    obtain rfl := List.mem_singleton.1 hx
    rfl
  | .pattern p, path, m, hready => by
    rw [Target.parts] at hready ⊢
    rw [assignTarget]
    exact assignPattern_outcome hs v p path hready
  | .member _, path, m, hready => by
    rw [Target.parts] at hready
    exact absurd rfl (hready.plain _ (List.mem_singleton_self _))
  | .invalid _, path, m, hready => by
    rw [Target.parts] at hready
    exact absurd rfl (hready.plain _ (List.mem_singleton_self _))

/-- The run of a pattern. It asks whether the value fits, and goes on with what is in it. -/
theorem assignPattern_outcome (hs : s.destructuring = .elementwise) (v : Value) :
    (p : Pattern) → (path : List PathStep) → {m : Machine} → PatternReady s h (p.parts path) m →
      PatternOutcome h v (p.parts path) m (assignPattern s p (h.follow v path) m)
  | .array targets, path, m, hready => by
    rw [Pattern.parts] at hready ⊢
    rw [assignPattern, hs]
    change PatternOutcome h v _ m ((lift (elementSource (h.follow v path)) >>=
      fun source => assignElements s source 0 targets) m)
    cases hfits : fits h v ⟨path, .array⟩ with
    | true =>
      have hiterable : m.world.heap.isIterable (h.follow v path) = true := hready.heap ▸ hfits
      obtain ⟨source, hsource, hget⟩ := elementSource_of_isIterable hiterable
      rw [hready.heap] at hget
      rw [bind_of_ok (lift_of_ok hsource)]
      exact .cons hfits rfl (assignElements_outcome hs v hget targets 0 hready.tail)
    | false =>
      have hiterable : m.world.heap.isIterable (h.follow v path) = false := hready.heap ▸ hfits
      have hsource := elementSource_of_not_isIterable hiterable
      rw [hready.heap] at hsource
      rw [bind_of_error (lift_of_error hsource)]
      exact .refused hfits _
  | .object entries, path, m, hready => by
    rw [Pattern.parts] at hready ⊢
    rw [assignPattern, hs]
    change PatternOutcome h v _ m ((lift (checkRecord (entries.map (·.1)) (h.follow v path)) >>=
      fun _ => assignProperties s (h.follow v path) entries) m)
    have hcheck := checkRecord_eq (entries.map (·.1)) (h.follow v path) m.world
    rw [hready.heap] at hcheck
    cases hfits : fits h v ⟨path, .object (entries.map (·.1))⟩ with
    | true =>
      have hnullish : (h.follow v path).isNullish = false := Bool.not_eq_true' _ ▸ hfits
      rw [hnullish, if_neg Bool.false_ne_true] at hcheck
      rw [bind_of_ok (lift_of_ok hcheck)]
      exact .cons hfits rfl (assignProperties_outcome hs v hnullish entries hready.tail)
    | false =>
      have hnullish : (h.follow v path).isNullish = true := Bool.not_eq_false' _ ▸ hfits
      rw [hnullish, if_pos rfl] at hcheck
      rw [bind_of_error (lift_of_error hcheck)]
      exact .refused hfits _

/-- The run of the targets by position. -/
theorem assignElements_outcome (hs : s.destructuring = .elementwise) (v : Value)
    {source : ElementSource} {path : List PathStep}
    (hsource : ∀ index, source.get h index = h.part (h.follow v path) (.element index)) :
    (targets : List (Option Target)) → (index : Nat) → {m : Machine} →
      PatternReady s h (Target.partsFrom path index targets) m →
      PatternOutcome h v (Target.partsFrom path index targets) m
        (assignElements s source index targets m)
  | [], index, m, hready => by
    rw [Target.partsFrom, assignElements]
    exact .ok (fun _ hx => nomatch hx) (.refl h v m)
  | none :: rest, index, m, hready => by
    rw [Target.partsFrom] at hready ⊢
    rw [assignElements]
    exact assignElements_outcome hs v hsource rest (index + 1) hready
  | some target :: rest, index, m, hready => by
    rw [Target.partsFrom] at hready ⊢
    rw [assignElements]
    change PatternOutcome h v _ m ((assignTarget s (source.get m.world.heap index) target >>=
      fun _ => assignElements s source (index + 1) rest) m)
    -- the source is read when its turn comes, but in the heap that the path was followed in
    rw [hready.heap, hsource, ← Heap.follow_concat]
    exact .bind (assignTarget_outcome hs v target _ hready.left)
      (fun m' htakes => assignElements_outcome hs v hsource rest (index + 1) (hready.right htakes))
      hready.ne

/-- The run of the targets by key. -/
theorem assignProperties_outcome (hs : s.destructuring = .elementwise) (v : Value)
    {path : List PathStep} (hsource : (h.follow v path).isNullish = false) :
    (entries : List (String × Target)) → {m : Machine} →
      PatternReady s h (Target.partsOfEntries path entries) m →
      PatternOutcome h v (Target.partsOfEntries path entries) m
        (assignProperties s (h.follow v path) entries m)
  | [], m, hready => by
    rw [Target.partsOfEntries, assignProperties]
    exact .ok (fun _ hx => nomatch hx) (.refl h v m)
  | (key, target) :: rest, m, hready => by
    rw [Target.partsOfEntries] at hready ⊢
    have hread := getProperty_eq_part hsource key m.world
    rw [hready.heap, ← Heap.follow_concat] at hread
    rw [assignProperties, bind_of_ok (lift_of_ok hread)]
    exact .bind (assignTarget_outcome hs v target _ hready.left)
      (fun m' htakes => assignProperties_outcome hs v hsource rest (hready.right htakes))
      hready.ne

end

end Run

/-! ### Whole assignments -/

section Assignment

variable {s : Settings} {parts : List PatternPart} {m m₁ : Machine} {value : Node} {v : Value}

/-- What the source evaluates to is taken apart with the names that could be written before. -/
theorem PatternReady.of_source (hm : m.references.Valid)
    (hplain : IsPlain parts) (hnodup : ((leaves parts).map (·.2)).Nodup)
    (hoffered : ∀ leaf ∈ leaves parts, s.refuses leaf.2 = false ∧ ∃ id, m.env.Offers leaf.2 id)
    (hvalue : evaluate s value m = .ok v m₁) : PatternReady s m₁.world.heap parts m₁ := by
  have hmeets := (Environment.offers_contract s).evaluate value (fun _ _ => trivial) hm
  rw [hvalue] at hmeets
  obtain ⟨hvalid, hoffers⟩ := hmeets
  refine ⟨rfl, hvalid, hplain, hnodup, fun leaf hleaf => ?_⟩
  obtain ⟨hname, id, hid⟩ := hoffered leaf hleaf
  exact ⟨hname, id, hoffers _ _ hid⟩

/-- The source is evaluated, and then taken apart. -/
theorem evaluate_pattern_of_source (hvalue : evaluate s value m = .ok v m₁) (op : AssignOp)
    (p : Pattern) (span : Span) :
    evaluate s (.assign op (.pattern p) value span) m = match assignPattern s p v m₁ with
      | .ok _ n => .ok v n
      | .error e n => .error e n := by
  rw [evaluate, bind_of_ok hvalue]
  cases hpattern : assignPattern s p v m₁ with
  | ok _ n =>
    rw [bind_of_ok hpattern]
    rfl
  | error e n => rw [bind_of_error hpattern]

end Assignment

/-- Element-wise destructuring assigns every leaf its projection. Take a pattern of patterns and
different names, each of which resolves to a mutable binding and is not refused. Its assignment
evaluates the source, and fails as the source does. Once the source has come to a value, the
assignment succeeds exactly when each part of the pattern fits; then it comes to that value, and
each leaf is bound to what its path leads to in it. Otherwise it fails as the first part that does
not fit refuses, and the leaves before that part have taken their values. Nothing else has happened
since the source was evaluated, and the pool holds what it held before. -/
theorem pattern_assigns_projections {s : Settings} (hs : s.destructuring = .elementwise)
    {p : Pattern} (hplain : IsPlain (p.parts []))
    (hnodup : ((leaves (p.parts [])).map (·.2)).Nodup) {m : Machine} (hm : m.Reachable)
    (hoffered : ∀ leaf ∈ leaves (p.parts []),
      s.refuses leaf.2 = false ∧ ∃ id, m.env.Offers leaf.2 id) (value : Node) (span : Span) :
    let run := evaluate s (.assign .assign (.pattern p) value span)
    (∀ e n, evaluate s value m = .error e n → run m = .error e n) ∧
      (∀ v m₁, evaluate s value m = .ok v m₁ →
        let h := m₁.world.heap
        ((∃ u n, run m = .ok u n) ↔ ∀ x ∈ p.parts [], x.fits h v = true) ∧
          (∀ u n, run m = .ok u n → u = v ∧ m₁.Takes h v (leaves (p.parts [])) n ∧
            ∀ leaf ∈ leaves (p.parts []), n.env.lookup? leaf.2 = some (h.follow v leaf.1)) ∧
          ∀ e n, run m = .error e n → ∃ before x after, p.parts [] = before ++ x :: after ∧
            (∀ y ∈ before, y.fits h v = true) ∧ x.fits h v = false ∧
            e = .ofCause (x.refusal h v) ∧ m₁.Takes h v (leaves before) n) ∧
      (run.after m).references.inUse = m.references.inUse ∧
      ∀ id, (run.after m).references.get? id = m.references.get? id := by
  intro run
  have hpool := hm.references.valid
  refine ⟨fun e n hvalue => ?_, fun v m₁ hvalue => ?_, Machine.inUse_evaluate s _ hpool,
    (Machine.holds_evaluate s _ ⟨hpool, fun _ => rfl⟩).get?⟩
  · change evaluate s (.assign .assign (.pattern p) value span) m = _
    rw [evaluate]
    exact bind_of_error hvalue
  · intro h
    have hready := PatternReady.of_source hpool hplain hnodup hoffered hvalue
    have houtcome := assignPattern_outcome hs v p [] hready
    have hrun : run m = _ := evaluate_pattern_of_source hvalue .assign p span
    have hlinked : (run.after m).env.IsLinked := (hm.evaluate s _).env.isLinked
    rw [Heap.follow_nil] at houtcome
    unfold Eval.after at hlinked
    rw [hrun] at hlinked ⊢
    -- the assignment comes to its source, so only the outcome of the pattern is left to tell
    -- apart
    generalize assignPattern s p v m₁ = outcome at houtcome hlinked ⊢
    rw [← houtcome.ok_iff]
    cases houtcome with
    | @ok n hfits htakes =>
      refine ⟨⟨fun _ => ⟨n, rfl⟩, fun _ => ⟨v, n, rfl⟩⟩, ?_, fun e n' herror => nomatch herror⟩
      rintro u n' ⟨⟩
      exact ⟨rfl, htakes, fun leaf hleaf => htakes.lookup?_eq hlinked hleaf⟩
    | @error n before after x hparts hbefore hx htakes =>
      refine ⟨⟨fun ⟨_, _, hok⟩ => (nomatch hok), fun ⟨_, hok⟩ => (nomatch hok)⟩,
        fun u n' hok => (nomatch hok), ?_⟩
      rintro e n' ⟨⟩
      exact ⟨before, x, after, hparts, hbefore, hx, rfl, htakes⟩

/-- The pattern `[a, , {k: b}]` takes `["p", "q", {k: "r"}]` apart. Of `"x"` the leaf `a` takes the
only character, and the object pattern refuses what lies past the end. -/
theorem pattern_assigns_projections_nested :
    let s : Settings :=
      ⟨⟨fun _ _ => .answer .undefined, fun _ => false, fun _ => none, 0⟩, true, .elementwise⟩
    let m : Machine := .start ⟨.empty, []⟩ none
      ((Environment.define .empty "b" .undefined .mutable).push.define "a" .undefined .mutable)
    let p : Pattern := .array [some (.identifier "a"), none,
      some (.pattern (.object [("k", .identifier "b")]))]
    let source : Node := .array [.constant (.str "p"), .constant (.str "q"),
      .object [("k", .constant (.str "r"))]]
    IsPlain (p.parts []) ∧ ((leaves (p.parts [])).map (·.2)).Nodup ∧ m.Reachable ∧
      (∀ leaf ∈ leaves (p.parts []),
        s.refuses leaf.2 = false ∧ ∃ id, m.env.Offers leaf.2 id) ∧
      (∃ u n, evaluate s (.assign .assign (.pattern p) source ⟨0, 34⟩) m = .ok u n ∧
        n.env.lookup? "a" = some (.str "p") ∧ n.env.lookup? "b" = some (.str "r")) ∧
      ∃ n before x after,
        evaluate s (.assign .assign (.pattern p) (.constant (.str "x")) ⟨0, 19⟩) m =
          .error (.ofCause (.propertyOfNullish "k" "undefined")) n ∧
        p.parts [] = before ++ x :: after ∧ x.fits m.world.heap (.str "x") = false ∧
        m.Takes m.world.heap (.str "x") (leaves before) n ∧
        n.env.lookup? "a" = some (.str "x") ∧ n.env.lookup? "b" = some .undefined := by
  intro s m p source
  have hplain : IsPlain (p.parts []) := by
    unfold IsPlain
    decide
  have hnodup : ((leaves (p.parts [])).map (·.2)).Nodup := by decide
  have hm : m.Reachable := Machine.Reachable.start _ none
    (.define "a" .undefined .mutable (.push (.define "b" .undefined .mutable .empty)))
  have hoffered : ∀ leaf ∈ leaves (p.parts []),
      s.refuses leaf.2 = false ∧ ∃ id, m.env.Offers leaf.2 id := by
    have hleaves : leaves (p.parts []) =
        [([.element 0], "a"), ([.element 2, .property "k"], "b")] := rfl
    rw [hleaves]
    intro leaf hleaf
    rcases List.mem_pair.1 hleaf with rfl | rfl
    · exact ⟨rfl, ⟨1⟩, rfl, rfl⟩
    · exact ⟨rfl, ⟨0⟩, rfl, rfl⟩
  have htheorem := pattern_assigns_projections (s := s) rfl hplain hnodup hm hoffered
  refine ⟨hplain, hnodup, hm, hoffered, ?_, ?_⟩
  · obtain ⟨-, hvalue, -⟩ := htheorem source ⟨0, 34⟩
    obtain ⟨hiff, hok, -⟩ := hvalue _ _ rfl
    obtain ⟨u, n, hrun⟩ := hiff.2 (by decide)
    have hlookups := (hok u n hrun).2.2
    exact ⟨u, n, hrun, hlookups ([.element 0], "a") (by decide),
      hlookups ([.element 2, .property "k"], "b") (by decide)⟩
  · obtain ⟨-, hvalue, -⟩ := htheorem (.constant (.str "x")) ⟨0, 19⟩
    obtain ⟨-, -, herror⟩ := hvalue _ _ rfl
    obtain ⟨before, x, after, hparts, -, hx, -, htakes⟩ := herror _ _ rfl
    exact ⟨_, before, x, after, rfl, hparts, hx, htakes, rfl, rfl⟩

end ScriptOps
