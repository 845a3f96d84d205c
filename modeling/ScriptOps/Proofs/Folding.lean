import ScriptOps.Proofs.OperatorMethods
import ScriptOps.Proofs.Simulation

/-!
# Folding keeps the meaning of trees

Folding evaluates an operator on constants before anything runs: without operator methods, without
the host, and in no machine. `BinaryOp.operate_of_fold?` says that the run would have come to the
same value in every machine and would have left it as it was, because no operator on primitives asks
the host, finds an operator method, or fails. With this the folded tree is followed along the tree
that keeps every operator.

A collaborator that is handed patterns sees them folded. So what it was handed agrees up to folding,
and the host must not look at the patterns in the trace to react alike.
-/

namespace ScriptOps

open Eval

/-! ### Operators on primitives -/

/-- Primitives have no operator method, and looking for one leaves the resolver as it was. -/
theorem Eval.lookupMethod_primitive (op : BinaryOp) (p q : Primitive) :
    lookupMethod op p q = pure none := by
  funext m
  exact lookupMethod_of_key (OverloadKey.of?_eq_none rfl rfl op)

/-- The general path: nothing is left to convert. -/
theorem BinaryOp.convertAndCompute_of_fold? (op : BinaryOp) (host : Host) {p q v : Primitive}
    (h : op.fold? p q = some v) : op.convertAndCompute host p q = pure (v : Value) := by
  unfold BinaryOp.fold? at h
  unfold BinaryOp.convertAndCompute
  split at h
  · next habsorbed =>
    cases h
    rw [if_pos habsorbed]
  · next habsorbed =>
    rw [if_neg habsorbed]
    funext w
    change EStateM.Result.ok (((op.compute? p q).getD .undefined : Primitive) : Value) w = _
    rw [h]
    rfl

/-- What an operator on two primitives is folded to is what it evaluates to, without any effect. -/
theorem BinaryOp.evaluate_of_fold? (op : BinaryOp) (host : Host) {p q v : Primitive}
    (h : op.fold? p q = some v) : op.evaluate host p q = pure (v : Value) := by
  cases op with
  | strictEq | strictNotEq | looseEq | looseNotEq =>
    cases Option.some.inj h
    rfl
  | instanceOf | membership => simp [fold?, isAbsorbed, compute?] at h
  | _ => exact BinaryOp.convertAndCompute_of_fold? _ host h

/-- So it is in a run, whether or not host types overload operators there. -/
theorem Eval.operate_of_fold? (s : Settings) (op : BinaryOp) {p q v : Primitive}
    (h : op.fold? p q = some v) : operate s op p q = pure (v : Value) := by
  have hrest : Eval.lift (op.evaluate s.host p q) = (pure (v : Value) : Eval Value) := by
    rw [op.evaluate_of_fold? s.host h]
    rfl
  unfold operate dispatch?
  rw [lookupMethod_primitive]
  simp only [pure_bind, ite_self, hrest]

/-! ### Folding trees -/

/-- Folding keeps an operator or puts a constant in its place. -/
theorem Node.isFolding_folding : Node.Combine.IsFolding folding := by
  intro op l r span
  unfold folding
  split
  · split
    · exact .inl ⟨_, rfl⟩
    · exact .inr rfl
  · exact .inr rfl

/-- A constant in the place of an operator is what the operator on two constants is folded to. -/
theorem Node.eq_constant_of_folding {op : BinaryOp} {l r : Node} {span : Span} {v : Value}
    (h : folding op l r span = .constant v) :
    ∃ p q u, l = .constant (.primitive p) ∧ r = .constant (.primitive q) ∧
      op.fold? p q = some u ∧ v = .primitive u := by
  unfold folding at h
  split at h
  · next p q =>
    split at h
    · next u hu => exact ⟨p, q, u, rfl, rfl, hu, (Node.constant.inj h).symm⟩
    · nomatch h
  · nomatch h

/-! ### Machines that agree up to folding -/

/-- The same event, or a pattern handed over that was folded on the left. -/
inductive Event.Alike : Event → Event → Prop where
  | refl (e : Event) : Event.Alike e e
  | handed (p : Pattern) (v : Value) :
    Event.Alike (.handed (p.rebuild Node.folding) v) (.handed p v)

/-- The same heap, and the same events up to folding in the same order. -/
structure World.Alike (w w' : World) : Prop where
  heap : w.heap = w'.heap
  trace : List.Forall₂ Event.Alike w.trace w'.trace

/-- Whether a host reacts alike when the patterns in the trace were folded. -/
def Host.OverlooksFolding (host : Host) : Prop :=
  ∀ c w w', World.Alike w w' → host.react c w = host.react c w'

/-- Every world is like itself. -/
theorem World.Alike.refl (w : World) : Alike w w :=
  ⟨rfl, List.forall₂_same.2 fun e _ => .refl e⟩

/-- The steps of such a host keep worlds alike. -/
theorem World.steady_alike {host : Host} (h : host.OverlooksFolding) :
    World.Steady host World.Alike where
  heap hww := hww.heap
  setHeap _ hww := ⟨rfl, hww.trace⟩
  observe e hww := ⟨hww.heap, .cons (.refl e) hww.trace⟩
  react c hww := h c _ _ hww

/-- Machines with related worlds that are the same up to the count of binary operators, of which the
left one evaluated no more. -/
structure Machine.Alike (S : World → World → Prop) (m n : Machine) : Prop where
  world : S m.world n.world
  resolver : m.resolver? = n.resolver?
  env : m.env = n.env
  references : m.references = n.references
  compoundAssignments : m.stats.compoundAssignments = n.stats.compoundAssignments
  referencesAcquired : m.stats.referencesAcquired = n.stats.referencesAcquired
  binaryEvaluations : m.stats.binaryEvaluations ≤ n.stats.binaryEvaluations

namespace Machine.Alike

variable {host : Host} {S : World → World → Prop} {m n : Machine}

/-- Every machine is like itself, if every world is. -/
theorem refl (hS : ∀ w, S w w) : Alike S m m :=
  ⟨hS _, rfl, rfl, rfl, rfl, rfl, Nat.le_refl _⟩

/-- What leaves pools alone keeps machines alike. -/
theorem steady : Machine.Steady S (Alike S) where
  world h := h.world
  env h := h.env
  resolver h := h.resolver
  setWorld h hw := { h with world := hw }
  setEnv h _ := { h with env := rfl }
  setResolver _ h := { h with resolver := rfl }
  countBinary h := { h with binaryEvaluations := Nat.succ_le_succ h.binaryEvaluations }
  countCompound h := { h with compoundAssignments := congrArg (· + 1) h.compoundAssignments }

/-- Machines stay alike when each takes the same reference in. -/
theorem acquire (h : Alike S m n) (r : Reference) :
    Alike S (m.acquire r).2 (n.acquire r).2 := by
  unfold Machine.acquire
  rw [h.references]
  exact { h with
    references := rfl
    referencesAcquired := congrArg (· + 1) h.referencesAcquired }

/-- They stay alike when each gives the same slot back. -/
theorem release (h : Alike S m n) (id : RefId) : Alike S (m.release id) (n.release id) :=
  { h with references := by rw [Machine.release, h.references, Machine.release] }

/-- Machines stay alike with one more reference in the pool. -/
theorem keepsPools : Machine.KeepsPools fun _ : Unit => Alike S :=
  Machine.keepsPools_of_same (fun _ _ h => h.references) (fun _ _ r h => h.acquire r)
    fun _ _ id h => h.release id

/-- Evaluation keeps machines alike. -/
theorem simulation {s : Settings} (hS : World.Steady s.host S) :
    Simulation s s (Action.Respects S) fun _ x y => ∀ _ : Unit, Matches Eq Eq (Alike S) x y :=
  Machine.Steady.simulation hS (fun _ => steady) keepsPools

/-- An operator that only the right machine evaluates, on the primitives that the left one folded.
-/
theorem binary_of_fold? {s : Settings} {op : BinaryOp} {p q v : Primitive}
    (h : op.fold? p q = some v) {l r : Node} (span : Span)
    (hl : Matches Eq Eq (Alike S) (pure (p : Value)) (evaluate s l))
    (hr : Matches Eq Eq (Alike S) (pure (q : Value)) (evaluate s r)) :
    Matches Eq Eq (Alike S) (pure (v : Value)) (evaluate s (.binary op l r span)) := by
  have hcount : Matches Eq Eq (Alike S) (pure () : Eval Unit)
      (count fun stats => { stats with binaryEvaluations := stats.binaryEvaluations + 1 }) :=
    fun m n hmn => .ok rfl
      { hmn with binaryEvaluations := Nat.le_succ_of_le hmn.binaryEvaluations }
  rw [evaluate]
  refine hl.skip (hr.skip (hcount.skip ?_))
  rw [operate_of_fold? s op h]
  exact Matches.pure rfl

/-- Folding keeps machines alike, as far as handing a folded pattern over does. -/
theorem folds {s : Settings} (hS : World.Steady s.host S)
    (hhanded : s.destructuring ≠ .elementwise → ∀ (p : Pattern) (v : Value),
      Matches Eq Eq S (Action.observe (.handed (p.rebuild Node.folding) v))
        (Action.observe (.handed p v))) :
    Simulation.Folds s s (fun _ x y => ∀ _ : Unit, Matches Eq Eq (Alike S) x y) Node.folding where
  isFolding := Node.isFolding_folding
  binary op l l' r r' span hl hr := by
    rcases Node.isFolding_folding op l r span with ⟨v, h⟩ | h
    · obtain ⟨p, q, u, rfl, rfl, hfold, rfl⟩ := Node.eq_constant_of_folding h
      rw [h, evaluate]
      rw [evaluate] at hl hr
      exact fun _ => binary_of_fold? hfold span (hl ()) (hr ())
    · rw [h, evaluate, evaluate]
      have hsim := simulation hS
      exact hsim.bind hl fun _ => hsim.bind hr fun _ => hsim.bind hsim.count fun _ =>
        hsim.locate span (hsim.operate _ _ _)
  handed hs p v _ := steady.lift (hhanded hs p v)

end Machine.Alike

/-! ### Lowering with and without folding -/

/-- Lowering on the left gives the rebuilt tree of the one on the right, which folds nothing. -/
abbrev Node.LowersAlike {α : Type} (rebuilt : α → α) (k : Nat) (x y : Lowering α) : Prop :=
  Matches (fun a b => a = rebuilt b) Eq (fun _ k' => k' = k) x y

namespace Node

/-- Trees that are rebuilt one by one are rebuilt as a list. -/
theorem rebuildAll_eq_of_forall₂ {c : Combine} {ms ns : List Node}
    (h : List.Forall₂ (fun m n => m = n.rebuild c) ms ns) : ms = rebuildAll c ns := by
  induction h with
  | nil => rfl
  | cons hm _ ih => rw [rebuildAll, ← hm, ih]

/-- So are the trees of entries. -/
theorem rebuildEntries_eq_of_forall₂ {c : Combine} {ms ns : List (String × Node)}
    (h : List.Forall₂ (fun m n => m = (n.1, n.2.rebuild c)) ms ns) : ms = rebuildEntries c ns := by
  induction h with
  | nil => rfl
  | cons hm _ ih => rw [rebuildEntries, ← hm, ih]

/-- So are targets by position. -/
theorem rebuildSlots_eq_of_forall₂ {c : Combine} {ms ns : List (Option Target)}
    (h : List.Forall₂ (fun m n => m = n.map (Target.rebuild c)) ms ns) :
    ms = Target.rebuildSlots c ns := by
  induction h with
  | nil => rfl
  | @cons m n _ _ hm _ ih =>
    cases n with
    | none => rw [Target.rebuildSlots, hm, ih, Option.map]
    | some target => rw [Target.rebuildSlots, hm, ih, Option.map]

/-- So are targets by key. -/
theorem rebuildTargets_eq_of_forall₂ {c : Combine} {ms ns : List (String × Target)}
    (h : List.Forall₂ (fun m n => m = (n.1, n.2.rebuild c)) ms ns) :
    ms = Target.rebuildEntries c ns := by
  induction h with
  | nil => rfl
  | cons hm _ ih => rw [Target.rebuildEntries, ← hm, ih]

variable {k : Nat}

/-- An operator is counted on the left alone. -/
theorem lowerBinary_alike (op : BinaryOp) {l r l' r' : Node} (span : Span)
    (hl : l = l'.rebuild folding) (hr : r = r'.rebuild folding) :
    LowersAlike (rebuild folding) k (lowerBinary folding op l r span)
      (lowerBinary .binary op l' r' span) := by
  intro i j hij
  have hnode : folding op l r span = (Node.binary op l' r' span).rebuild folding := by
    rw [rebuild, hl, hr]
  unfold lowerBinary
  by_cases hconstant : (folding op l r span).isConstant = true
  · rw [if_pos hconstant]
    exact .ok hnode hij
  · rw [if_neg hconstant]
    exact .ok hnode hij

/-- The lowering of a member is rebuilt if those of its parts are. -/
theorem lowerMember_alike {lower lower' : ExprId → Lowering Node}
    (h : ∀ id, LowersAlike (rebuild folding) k (lower id) (lower' id)) (base : ExprId)
    (key : ExprKey) (span : Span) :
    LowersAlike (Member.rebuild folding) k (lowerMember lower base key span)
      (lowerMember lower' base key span) := by
  refine (h base).bind fun b b' hb => ?_
  cases key with
  | named name => exact Matches.pure (by rw [hb, Member.rebuild, Key.rebuild])
  | computed key =>
    exact (h key).bind fun n n' hn => Matches.pure (by rw [hb, hn, Member.rebuild, Key.rebuild])

mutual

/-- Lowering with folding is lowering without it, with the tree folded afterwards. -/
theorem lowerUpTo_alike (a : Arena) (k : Nat) : (fuel : Nat) → (id : ExprId) →
    LowersAlike (rebuild folding) k (lowerUpTo folding a fuel id) (lowerUpTo .binary a fuel id)
  | 0, id => by
    rw [lowerUpTo, lowerUpTo]
    exact Matches.throw rfl
  | fuel + 1, id => by
    have hnode := lowerUpTo_alike a k fuel
    have htarget := lowerTargetUpTo_alike a k fuel
    rw [lowerUpTo, lowerUpTo]
    cases a.get? id with
    | none => exact Matches.throw rfl
    | some e =>
      obtain ⟨form, span⟩ := e
      cases form with
      | literal | identifier | function => exact Matches.pure rfl
      | member base key =>
        exact (lowerMember_alike hnode base key span).bind fun m m' hm =>
          Matches.pure (by rw [hm, rebuild])
      | call callee args =>
        refine (hnode callee).bind fun n n' hn =>
          (Matches.mapM args hnode).bind fun ns ns' hns => ?_
        exact Matches.pure (by rw [hn, rebuildAll_eq_of_forall₂ hns, rebuild])
      | array elements =>
        exact (Matches.mapM elements hnode).bind fun ns ns' hns =>
          Matches.pure (by rw [rebuildAll_eq_of_forall₂ hns, rebuild])
      | object entries =>
        refine (Matches.mapM entries fun entry => ?_).bind fun ns ns' hns =>
          Matches.pure (by rw [rebuildEntries_eq_of_forall₂ hns, rebuild])
        exact (hnode entry.2).bind fun n n' hn => Matches.pure (by rw [hn])
      | binary op l r =>
        exact (hnode l).bind fun n n' hn => (hnode r).bind fun m m' hm =>
          lowerBinary_alike op span hn hm
      | assign op target value =>
        exact (htarget _ target).bind fun n n' hn => (hnode value).bind fun m m' hm =>
          Matches.pure (by rw [hn, hm, rebuild])
      | arrayPattern | objectPattern => exact Matches.throw rfl

/-- The targets of assignments. -/
theorem lowerTargetUpTo_alike (a : Arena) (k : Nat) : (fuel : Nat) → (patterns : Bool) →
    (id : ExprId) → LowersAlike (Target.rebuild folding) k
      (lowerTargetUpTo folding a fuel patterns id) (lowerTargetUpTo .binary a fuel patterns id)
  | 0, patterns, id => by
    rw [lowerTargetUpTo, lowerTargetUpTo]
    exact Matches.throw rfl
  | fuel + 1, patterns, id => by
    have hnode := lowerUpTo_alike a k fuel
    have htarget := lowerTargetUpTo_alike a k fuel true
    have hinvalid : LowersAlike (Target.rebuild folding) k
        (do return .invalid (← lowerUpTo folding a fuel id))
        (do return .invalid (← lowerUpTo .binary a fuel id)) :=
      (hnode id).bind fun n n' hn => Matches.pure (by rw [hn, Target.rebuild])
    rw [lowerTargetUpTo, lowerTargetUpTo]
    cases a.get? id with
    | none => exact Matches.throw rfl
    | some e =>
      obtain ⟨form, span⟩ := e
      cases form with
      | identifier name => exact Matches.pure rfl
      | member base key =>
        exact (lowerMember_alike hnode base key span).bind fun m m' hm =>
          Matches.pure (by rw [hm, Target.rebuild])
      | arrayPattern targets =>
        cases patterns with
        | false => exact Matches.throw rfl
        | true =>
          refine (Matches.mapM targets fun slot => ?_).bind fun ts ts' hts =>
            Matches.pure (by rw [rebuildSlots_eq_of_forall₂ hts, Target.rebuild, Pattern.rebuild])
          cases slot with
          | none => exact Matches.pure rfl
          | some id => exact (htarget id).bind fun n n' hn => Matches.pure (by rw [hn, Option.map])
      | objectPattern entries =>
        cases patterns with
        | false => exact Matches.throw rfl
        | true =>
          refine (Matches.mapM entries fun entry => ?_).bind fun ts ts' hts =>
            Matches.pure (by rw [rebuildTargets_eq_of_forall₂ hts, Target.rebuild, Pattern.rebuild])
          exact (htarget entry.2).bind fun n n' hn => Matches.pure (by rw [hn])
      | _ => exact hinvalid

end

/-- Where lowering with folding succeeds, lowering without it does, with the unfolded tree. -/
theorem lowerPlain_of_lower {a : Arena} {id : ExprId} {i j : Nat} {node : Node}
    (h : lower a id i = .ok node j) :
    ∃ plain, lowerPlain a id i = .ok plain i ∧ node = plain.rebuild folding := by
  have hagree : Agree _ _ _ (lower a id i) (lowerPlain a id i) :=
    lowerUpTo_alike a i (2 * a.exprs.size + 2) id (s := i) rfl
  rw [h] at hagree
  generalize lowerPlain a id i = q at hagree
  cases hagree with
  | ok hv hr =>
    subst hr
    exact ⟨_, rfl, hv⟩

end Node

/-! ### Evaluation with and without folding -/

/-- Folding preserves the meaning of a tree that was lowered: in every machine it comes to the same
value or the same error as the tree with every operator, and leaves the same machine, except that it
may have counted fewer binary operators. A collaborator that takes patterns is handed folded ones,
so there the traces agree up to folding, for hosts that overlook it. -/
theorem evaluate_lower_agrees {a : Arena} {id : ExprId} {i j : Nat} {node : Node}
    (h : Node.lower a id i = .ok node j) :
    ∃ plain, Node.lowerPlain a id i = .ok plain i ∧ ∀ (s : Settings) (m : Machine),
      (s.destructuring = .elementwise →
        Agree Eq Eq (Machine.Alike Eq) (evaluate s node m) (evaluate s plain m)) ∧
      (s.host.OverlooksFolding →
        Agree Eq Eq (Machine.Alike World.Alike) (evaluate s node m) (evaluate s plain m)) := by
  obtain ⟨plain, hplain, rfl⟩ := Node.lowerPlain_of_lower h
  refine ⟨plain, hplain, fun s m => ⟨fun hs => ?_, fun hhost => ?_⟩⟩
  · have hS := World.steady_eq s.host
    have hfolds := Machine.Alike.folds hS fun hne => absurd hs hne
    exact (Machine.Alike.simulation hS).evaluate hfolds plain () (Machine.Alike.refl fun _ => rfl)
  · have hS := World.steady_alike hhost
    have hfolds := Machine.Alike.folds hS fun _ p v =>
      Matches.modify fun _ _ hww => ⟨hww.heap, .cons (.handed p v) hww.trace⟩
    exact (Machine.Alike.simulation hS).evaluate hfolds plain ()
      (Machine.Alike.refl World.Alike.refl)

/-- The assignment `x = "a" + "b"` is lowered to that of a constant. -/
theorem evaluate_lower_agrees_concatenation :
    let a : Arena := ⟨#[⟨.literal (.str "a"), default⟩, ⟨.literal (.str "b"), default⟩,
      ⟨.binary .add 0 1, default⟩, ⟨.identifier "x", default⟩, ⟨.assign .assign 3 2, default⟩]⟩
    let node : Node := .assign .assign (.identifier "x") (.constant (.str "ab")) default
    Node.lower a 4 0 = .ok node 1 ∧
      ∃ plain, Node.lowerPlain a 4 0 = .ok plain 0 ∧ ∀ (s : Settings) (m : Machine),
        (s.destructuring = .elementwise →
          Agree Eq Eq (Machine.Alike Eq) (evaluate s node m) (evaluate s plain m)) ∧
        (s.host.OverlooksFolding →
          Agree Eq Eq (Machine.Alike World.Alike) (evaluate s node m) (evaluate s plain m)) :=
  ⟨rfl, evaluate_lower_agrees rfl⟩

end ScriptOps
