import Mathlib.Data.Set.Card
import ScriptOps.Proofs.Folding
import ScriptOps.Proofs.LoweringDefects

/-!
# Folding leaves nothing to fold

Lowering puts a tree together from the operands upward, so an operator is folded exactly when its
operands have become constants by then. What is left in the tree has no operator that could still be
folded, wherever expressions nest: in operands, arguments, keys, literals and targets. Every
operator of the source was either folded, and counted, or is left in the tree. An expression that is
shared has its operators counted once for each path that leads to it.
-/

namespace ScriptOps

/-! ### Operators of the source -/

/-- Whether the expression is an operator with two operands. -/
def ExprForm.isOperator : ExprForm → Bool
  | binary .. => true
  | _ => false

namespace Arena

/-- The occurrence at the end of a path. A path goes from parts to parts, and each of its steps is
the position of a part among the others. -/
def follow? (a : Arena) : Occurrence → List Nat → Option Occurrence
  | o, [] => some o
  | o, i :: path => (a.parts o)[i]?.bind fun part => a.follow? part path

/-- Whether an operator with two operands is at an occurrence. -/
def isOperator (a : Arena) (o : Occurrence) : Bool :=
  (a.get? o.id).any fun e => e.form.isOperator

/-- The paths from an occurrence that lead to operators. -/
def operatorPaths (a : Arena) (o : Occurrence) : Set (List Nat) :=
  {path | ∃ o', a.follow? o path = some o' ∧ a.isOperator o' = true}

/-- How many operators there are at an occurrence and below it. -/
noncomputable def operators (a : Arena) (o : Occurrence) : ℕ∞ :=
  (a.operatorPaths o).encard

/-- The paths that lead to operators from some occurrences, each after the position of the
occurrence that it begins with. -/
def operatorPathsFrom (a : Arena) (os : List Occurrence) : Set (List Nat) :=
  {path | ∃ i rest o, path = i :: rest ∧ os[i]? = some o ∧ rest ∈ a.operatorPaths o}

variable {a : Arena}

/-- The paths into a list lead into its first occurrence or into one of the others. -/
theorem operatorPathsFrom_cons (o : Occurrence) (os : List Occurrence) :
    a.operatorPathsFrom (o :: os) =
      List.cons 0 '' a.operatorPaths o ∪ List.modifyHead (· + 1) '' a.operatorPathsFrom os := by
  ext path
  constructor
  · rintro ⟨i, rest, o', rfl, ho', hrest⟩
    cases i with
    | zero =>
      cases Option.some.inj ho'
      exact .inl ⟨rest, hrest, rfl⟩
    | succ i => exact .inr ⟨i :: rest, ⟨i, rest, o', rfl, ho', hrest⟩, rfl⟩
  · rintro (⟨rest, hrest, rfl⟩ | ⟨path, ⟨i, rest, o', rfl, ho', hrest⟩, rfl⟩)
    · exact ⟨0, rest, o, rfl, rfl, hrest⟩
    · exact ⟨i + 1, rest, o', rfl, ho', hrest⟩

/-- Paths from different occurrences are different. -/
theorem encard_operatorPathsFrom (os : List Occurrence) :
    (a.operatorPathsFrom os).encard = (os.map a.operators).sum := by
  induction os with
  | nil =>
    refine Set.encard_eq_zero.2 (Set.eq_empty_of_forall_notMem ?_)
    rintro path ⟨i, rest, o, -, ho, -⟩
    nomatch ho
  | cons o os ih =>
    have hdisjoint : Disjoint (List.cons 0 '' a.operatorPaths o)
        (List.modifyHead (· + 1) '' a.operatorPathsFrom os) := by
      rw [Set.disjoint_left]
      rintro _ ⟨rest, -, rfl⟩ ⟨_, ⟨i, rest', o', rfl, -, -⟩, heq⟩
      exact absurd (List.cons.inj heq).1 (Nat.succ_ne_zero i)
    have hcons : Set.InjOn (List.cons 0) (a.operatorPaths o) :=
      List.cons_injective.injOn
    have hmodify : Set.InjOn (List.modifyHead (· + 1)) (a.operatorPathsFrom os) := by
      rintro _ ⟨i, rest, _, rfl, -, -⟩ _ ⟨j, rest', _, rfl, -, -⟩ heq
      obtain ⟨hhead, rfl⟩ := List.cons.inj heq
      rw [Nat.succ.inj hhead]
    rw [operatorPathsFrom_cons, Set.encard_union_eq hdisjoint, hcons.encard_image,
      hmodify.encard_image, ih, List.map_cons, List.sum_cons, operators]

/-- The paths to operators are the empty one, at an operator, and those into the parts. -/
theorem operatorPaths_eq (o : Occurrence) :
    a.operatorPaths o =
      (if a.isOperator o then {[]} else ∅) ∪ a.operatorPathsFrom (a.parts o) := by
  ext path
  cases path with
  | nil =>
    have hfrom : [] ∉ a.operatorPathsFrom (a.parts o) := nofun
    cases ho : a.isOperator o with
    | true => exact iff_of_true ⟨o, rfl, ho⟩ (.inl rfl)
    | false =>
      refine iff_of_false ?_ fun h => h.elim id hfrom
      rintro ⟨o', hfollow, ho'⟩
      cases Option.some.inj hfollow
      nomatch ho.symm.trans ho'
  | cons i rest =>
    have hself : i :: rest ∉ (if a.isOperator o then {[]} else ∅ : Set (List Nat)) := by
      split <;> nofun
    rw [Set.mem_union, or_iff_right hself]
    constructor
    · rintro ⟨o', hfollow, ho'⟩
      obtain ⟨part, hpart, hrest⟩ := Option.bind_eq_some_iff.1 hfollow
      exact ⟨i, rest, part, rfl, hpart, o', hrest, ho'⟩
    · rintro ⟨_, _, part, heq, hpart, o', hrest, ho'⟩
      cases heq
      exact ⟨o', Option.bind_eq_some_iff.2 ⟨part, hpart, hrest⟩, ho'⟩

/-- The operators of an expression are itself, if it is one, and those of its parts. -/
theorem operators_eq (o : Occurrence) :
    a.operators o =
      (if a.isOperator o then 1 else 0) + ((a.parts o).map a.operators).sum := by
  have hdisjoint : Disjoint (if a.isOperator o then {[]} else ∅ : Set (List Nat))
      (a.operatorPathsFrom (a.parts o)) := by
    rw [Set.disjoint_left]
    rintro path hself ⟨i, rest, _, rfl, -, -⟩
    split at hself <;> nomatch hself
  rw [operators, operatorPaths_eq, Set.encard_union_eq hdisjoint, encard_operatorPathsFrom]
  split
  · rw [Set.encard_singleton]
  · rw [Set.encard_empty]

/-- Where the expression is known, by its form. -/
theorem operators_of_get? {id : ExprId} {e : Expr} (he : a.get? id = some e) (patterns : Bool) :
    a.operators ⟨id, patterns⟩ =
      (if e.form.isOperator then 1 else 0) + (e.form.parts.map a.operators).sum := by
  rw [operators_eq, isOperator, parts, he, Option.any_some]

end Arena

/-! ### Subtrees -/

mutual

/-- The tree and all trees in it. -/
def Node.subtrees : Node → List Node
  | .constant v => [.constant v]
  | .identifier name span => [.identifier name span]
  | .member m => .member m :: m.subtrees
  | .call callee args span => .call callee args span :: (callee.subtrees ++ Node.subtreesAll args)
  | .function name? kind => [.function name? kind]
  | .array elements => .array elements :: Node.subtreesAll elements
  | .object entries => .object entries :: Node.subtreesEntries entries
  | .binary op left right span => .binary op left right span :: (left.subtrees ++ right.subtrees)
  | .assign op target value span =>
    .assign op target value span :: (target.subtrees ++ value.subtrees)

/-- The trees of a list, and all trees in them. -/
def Node.subtreesAll : List Node → List Node
  | [] => []
  | n :: rest => n.subtrees ++ Node.subtreesAll rest

/-- The trees of the entries, and all trees in them. -/
def Node.subtreesEntries : List (String × Node) → List Node
  | [] => []
  | (_, n) :: rest => n.subtrees ++ Node.subtreesEntries rest

/-- All trees in a member. -/
def Member.subtrees : Member → List Node
  | .mk object key _ => object.subtrees ++ key.subtrees

/-- All trees in a key. -/
def Key.subtrees : Key → List Node
  | .named _ => []
  | .computed n => n.subtrees

/-- All trees in a target. -/
def Target.subtrees : Target → List Node
  | .identifier _ => []
  | .member m => m.subtrees
  | .pattern p => p.subtrees
  | .invalid n => n.subtrees

/-- All trees in a pattern. -/
def Pattern.subtrees : Pattern → List Node
  | .array targets => Target.subtreesSlots targets
  | .object entries => Target.subtreesEntries entries

/-- All trees in the targets by position. -/
def Target.subtreesSlots : List (Option Target) → List Node
  | [] => []
  | none :: rest => Target.subtreesSlots rest
  | some target :: rest => target.subtrees ++ Target.subtreesSlots rest

/-- All trees in the targets by key. -/
def Target.subtreesEntries : List (String × Target) → List Node
  | [] => []
  | (_, target) :: rest => target.subtrees ++ Target.subtreesEntries rest

end

/-- The subtrees of a list are those of its trees. -/
theorem Node.subtreesAll_eq (ns : List Node) : subtreesAll ns = ns.flatMap subtrees := by
  induction ns with
  | nil => rfl
  | cons n rest ih => rw [subtreesAll, ih, List.flatMap_cons]

/-- The subtrees of entries are those of their trees. -/
theorem Node.subtreesEntries_eq (entries : List (String × Node)) :
    subtreesEntries entries = entries.flatMap fun entry => entry.2.subtrees := by
  induction entries with
  | nil => rfl
  | cons entry rest ih => rw [subtreesEntries, ih, List.flatMap_cons]

/-- The subtrees of targets by position are those of the targets that are there. -/
theorem Target.subtreesSlots_eq (slots : List (Option Target)) :
    subtreesSlots slots = slots.flatMap fun slot => slot.elim [] subtrees := by
  induction slots with
  | nil => rfl
  | cons slot rest ih =>
    cases slot with
    | none => exact ih
    | some target => rw [subtreesSlots, ih, List.flatMap_cons, Option.elim_some]

/-- The subtrees of targets by key are those of the targets. -/
theorem Target.subtreesEntries_eq (entries : List (String × Target)) :
    subtreesEntries entries = entries.flatMap fun entry => entry.2.subtrees := by
  induction entries with
  | nil => rfl
  | cons entry rest ih => rw [subtreesEntries, ih, List.flatMap_cons]

/-- Whether the tree is an operator with two operands. -/
def Node.isOperator : Node → Bool
  | .binary .. => true
  | _ => false

open Node

/-! ### Operators on two primitives -/

/-- Two primitives are folded by exactly the operators that fold. -/
theorem BinaryOp.isSome_fold? (op : BinaryOp) (p q : Primitive) :
    (op.fold? p q).isSome = op.isFoldable := by
  unfold fold?
  split
  · next habsorbed => cases op <;> first | rfl | nomatch habsorbed
  · cases op <;> rfl

/-- An operator that folds never fails on two primitives, whatever the host. -/
theorem BinaryOp.evaluate_of_isFoldable {op : BinaryOp} (h : op.isFoldable = true) (host : Host)
    (p q : Primitive) : ∃ v : Primitive, op.evaluate host p q = pure (v : Value) := by
  rw [← op.isSome_fold? p q] at h
  obtain ⟨v, hv⟩ := Option.isSome_iff_exists.1 h
  exact ⟨v, op.evaluate_of_fold? host hv⟩

/-- An operator on two primitives that is kept is none that folds. -/
theorem Node.isFoldable_of_folding {op : BinaryOp} {p q : Primitive} {span : Span}
    (h : folding op (.constant p) (.constant q) span =
      .binary op (.constant p) (.constant q) span) : op.isFoldable = false := by
  rw [← op.isSome_fold? p q, Option.isSome_eq_false_iff, Option.isNone_iff_eq_none]
  unfold folding at h
  split at h
  · next p' q' span' hp hq =>
    cases hp
    cases hq
    split at h
    · nomatch h
    · assumption
  · next hne => exact absurd rfl (hne p q rfl)

/-! ### Lowering -/

/-- Nothing is left to fold in some trees, and their operators together with those that were folded
are as many as there were in the source. -/
structure Node.FoldedFrom (source : ℕ∞) (trees : List Node) (folded : Nat) : Prop where
  count : source = folded + (trees.countP isOperator : Nat)
  isPrimitive : ∀ v : Value, .constant v ∈ trees → ∃ p : Primitive, v = p
  notFoldable : ∀ op u v span, .binary op (.constant u) (.constant v) span ∈ trees →
    op.isFoldable = false

namespace Node.FoldedFrom

variable {source source' : ℕ∞} {trees trees' : List Node} {folded folded' : Nat}

/-- Without trees nothing was folded. -/
theorem nil : FoldedFrom 0 [] 0 :=
  ⟨rfl, nofun, nofun⟩

theorem congr (h : FoldedFrom source trees folded) (hsource : source = source') :
    FoldedFrom source' trees folded :=
  hsource ▸ h

/-- What was folded in two parts adds up. -/
theorem append (h : FoldedFrom source trees folded) (h' : FoldedFrom source' trees' folded') :
    FoldedFrom (source + source') (trees ++ trees') (folded + folded') where
  count := by
    rw [h.count, h'.count, List.countP_append, Nat.cast_add, Nat.cast_add, add_add_add_comm]
  isPrimitive v hv := (List.mem_append.1 hv).elim (h.isPrimitive v) (h'.isPrimitive v)
  notFoldable op u v span hop :=
    (List.mem_append.1 hop).elim (h.notFoldable op u v span) (h'.notFoldable op u v span)

/-- A tree that is neither a constant nor an operator has the operators of those in it. -/
theorem cons {n : Node} (h : FoldedFrom source trees folded) (hconstant : n.isConstant = false)
    (hoperator : n.isOperator = false) : FoldedFrom source (n :: trees) folded where
  count := by rw [h.count, List.countP_cons, hoperator, if_neg Bool.false_ne_true, Nat.add_zero]
  isPrimitive v hv := by
    rcases List.mem_cons.1 hv with rfl | hv
    · nomatch hconstant
    · exact h.isPrimitive v hv
  notFoldable op u v span hop := by
    rcases List.mem_cons.1 hop with rfl | hop
    · nomatch hoperator
    · exact h.notFoldable op u v span hop

/-- Of a constant all operators were folded. -/
theorem constant (p : Primitive) (folded : Nat) : FoldedFrom folded [.constant p] folded where
  count := (add_zero _).symm
  isPrimitive v hv := by
    cases List.mem_singleton.1 hv
    exact ⟨p, rfl⟩
  notFoldable op u v span hop := nomatch List.mem_singleton.1 hop

end Node.FoldedFrom

/-- When the lowering succeeds, what it gives satisfies the condition with what it has folded. -/
def Node.Lowering.Yields {α : Type} (x : Lowering α) (Q : α → Nat → Prop) : Prop :=
  ∀ i b j, x i = .ok b j → ∃ folded, j = i + folded ∧ Q b folded

namespace Node.Lowering.Yields

variable {α β ι : Type} {x : Lowering α} {Q : α → Nat → Prop} {R : β → Nat → Prop}

/-- A value yields itself and folds nothing. -/
theorem pure {b : α} (h : Q b 0) : Yields (pure b) Q := by
  intro i b' j hok
  cases hok
  exact ⟨0, rfl, h⟩

/-- A lowering that fails yields anything. -/
theorem throw (e : BuildError) : Yields (throw e : Lowering α) Q :=
  fun _ _ _ hok => nomatch hok

/-- In a sequence both parts fold. -/
theorem bind {f : α → Lowering β} (hx : x.Yields Q)
    (hf : ∀ b folded, Q b folded → (f b).Yields fun c folded' => R c (folded + folded')) :
    (x >>= f).Yields R := by
  intro i c k hok
  obtain ⟨b, j, hb, hc⟩ := ok_of_bind hok
  obtain ⟨folded, rfl, hQ⟩ := hx i b j hb
  obtain ⟨folded', rfl, hR⟩ := hf b folded hQ _ c k hc
  exact ⟨folded + folded', Nat.add_assoc .., hR⟩

/-- What is made of a value folds no more. -/
theorem map {f : α → β} (hx : x.Yields Q) (hf : ∀ b folded, Q b folded → R (f b) folded) :
    Yields (do return f (← x)) R :=
  hx.bind fun b folded hQ => .pure (hf b folded hQ)

/-- The trees of a list are folded from those of its elements. -/
theorem mapM {f : ι → Lowering β} {source : ι → ℕ∞} {trees : β → List Node} {l : List ι}
    (hf : ∀ i ∈ l, (f i).Yields fun b => FoldedFrom (source i) (trees b)) :
    (l.mapM f).Yields fun bs => FoldedFrom (l.map source).sum (bs.flatMap trees) := by
  induction l with
  | nil => exact .pure .nil
  | cons i rest ih =>
    rw [List.mapM_cons, List.map_cons, List.sum_cons]
    refine (hf i List.mem_cons_self).bind fun b folded hb => ?_
    refine (ih fun j hj => hf j (List.mem_cons_of_mem i hj)).map fun bs folded' hbs => ?_
    rw [List.flatMap_cons]
    exact hb.append hbs

end Node.Lowering.Yields

namespace Node

variable {a : Arena} {fuel : Nat}

/-- What a lowering makes of an occurrence is folded from the operators there. -/
abbrev LowersFolded {α : Type} (a : Arena) (o : Occurrence) (subtrees : α → List Node)
    (x : Lowering α) : Prop :=
  x.Yields fun b => FoldedFrom (a.operators o) (subtrees b)

/-- An operator on two constants becomes a constant, and is counted. Any other is kept. -/
theorem lowerBinary_folded (op : BinaryOp) {l r : Node} (span : Span) {source source' : ℕ∞}
    {folded folded' : Nat} (hl : FoldedFrom source l.subtrees folded)
    (hr : FoldedFrom source' r.subtrees folded') :
    (lowerBinary folding op l r span).Yields fun n folded'' =>
      FoldedFrom (1 + (source + source')) n.subtrees (folded + (folded' + folded'')) := by
  have hoperands := hl.append hr
  intro i n j hok
  unfold lowerBinary at hok
  -- the operator is folded and counted, or it is kept, and then its operands do not allow folding
  rcases Node.isFolding_folding op l r span with ⟨v, hv⟩ | hkept
  · obtain ⟨p, q, u, rfl, rfl, -, rfl⟩ := eq_constant_of_folding hv
    rw [hv] at hok
    cases hok
    refine ⟨1, rfl, (FoldedFrom.constant u _).congr ?_⟩
    have hcount : source + source' = (folded + folded' : Nat) := hoperands.count.trans (add_zero _)
    rw [hcount, ← Nat.add_assoc, Nat.cast_add _ 1, Nat.cast_one, add_comm]
  · rw [hkept] at hok
    cases hok
    refine ⟨0, rfl, ?_, fun v hv => ?_, fun op' u v span' hop => ?_⟩
    · rw [hoperands.count, Node.subtrees, List.countP_cons, isOperator, if_pos rfl, Nat.add_zero,
        Nat.cast_add _ 1, Nat.cast_one, add_comm, add_assoc]
    · rcases List.mem_cons.1 hv with heq | hv
      · nomatch heq
      · exact hoperands.isPrimitive v hv
    · rcases List.mem_cons.1 hop with heq | hop
      · cases heq
        obtain ⟨p, rfl⟩ := hl.isPrimitive u (.head _)
        obtain ⟨q, rfl⟩ := hr.isPrimitive v (.head _)
        exact isFoldable_of_folding hkept
      · exact hoperands.notFoldable op' u v span' hop

/-- A member is folded from the operators in its object and in its key. -/
theorem lowerMember_folded {lower : ExprId → Lowering Node}
    (hlower : ∀ id, LowersFolded a (.value id) subtrees (lower id)) (base : ExprId) (key : ExprKey)
    (span : Span) :
    (lowerMember lower base key span).Yields fun m =>
      FoldedFrom (((ExprForm.member base key).parts.map a.operators).sum) m.subtrees := by
  refine (hlower base).bind fun b folded hb => ?_
  cases key with
  | named name =>
    refine .pure ?_
    rw [Member.subtrees, ExprForm.parts, List.map_singleton, List.sum_singleton, Key.subtrees,
      List.append_nil]
    exact hb
  | computed key =>
    refine (hlower key).map fun k folded' hk => ?_
    rw [Member.subtrees, ExprForm.parts, List.map_cons, List.map_singleton, List.sum_cons,
      List.sum_singleton, Key.subtrees]
    exact hb.append hk

section

variable {α : Type} {subtrees : α → List Node} {patterns : Bool} {lower : ExprId → Lowering α}

/-- The elements of a list are lowered one after the other. -/
theorem mapM_folded (hlower : ∀ id, LowersFolded a ⟨id, patterns⟩ subtrees (lower id))
    (ids : List ExprId) :
    (ids.mapM lower).Yields fun bs =>
      FoldedFrom ((ids.map fun id => ⟨id, patterns⟩).map a.operators).sum
        (bs.flatMap subtrees) := by
  rw [List.map_map]
  exact .mapM fun id _ => hlower id

/-- So are entries. -/
theorem mapM_entries_folded (hlower : ∀ id, LowersFolded a ⟨id, patterns⟩ subtrees (lower id))
    (entries : List (String × ExprId)) :
    Lowering.Yields (entries.mapM fun (key, id) => return (key, ← lower id) :
        Lowering (List (String × α)))
      fun bs => FoldedFrom ((entries.map fun entry => ⟨entry.2, patterns⟩).map a.operators).sum
        (bs.flatMap fun b => subtrees b.2) := by
  rw [List.map_map]
  exact .mapM fun entry _ => (hlower entry.2).map fun b folded hb => hb

/-- So are the targets of a list, where there is one. -/
theorem mapM_slots_folded {lower : ExprId → Lowering Target}
    (hlower : ∀ id, LowersFolded a (.target id) Target.subtrees (lower id))
    (slots : List (Option ExprId)) :
    Lowering.Yields (slots.mapM fun
        | some id => return some (← lower id)
        | none => return none : Lowering (List (Option Target)))
      fun bs => FoldedFrom ((ExprForm.arrayPattern slots).parts.map a.operators).sum
        (bs.flatMap fun slot => slot.elim [] Target.subtrees) := by
  have hsum (slots : List (Option ExprId)) :
      ((ExprForm.arrayPattern slots).parts.map a.operators).sum =
        (slots.map fun slot => ((slot.map Occurrence.target).toList.map a.operators).sum).sum := by
    induction slots with
    | nil => rfl
    | cons slot rest ih =>
      rw [List.map_cons, List.sum_cons, ← ih, ExprForm.parts, List.flatMap_cons, List.map_append,
        List.sum_append, ExprForm.parts]
  rw [hsum]
  refine .mapM fun slot _ => ?_
  cases slot with
  | none => exact .pure .nil
  | some id => exact (hlower id).map fun t folded ht => ht.congr (add_zero _).symm

end

mutual

/-- Lowering folds what can be folded. -/
theorem lowerUpTo_folded (a : Arena) : (fuel : Nat) → (id : ExprId) →
    LowersFolded a (.value id) subtrees (lowerUpTo folding a fuel id)
  | 0, id => by
    rw [lowerUpTo]
    exact .throw _
  | fuel + 1, id => by
    have hnode := lowerUpTo_folded a fuel
    have htarget := lowerTargetUpTo_folded a fuel
    rw [lowerUpTo]
    cases he : a.get? id with
    | none => exact .throw _
    | some e =>
      have hoperators := Arena.operators_of_get? he false
      obtain ⟨form, span⟩ := e
      cases form with
      | literal p =>
        obtain ⟨v, hv⟩ : ∃ v : Primitive, literal p = v := by cases p <;> exact ⟨_, rfl⟩
        refine .pure ?_
        rw [hv]
        exact (FoldedFrom.constant v 0).congr hoperators.symm
      | identifier | function => exact .pure ((FoldedFrom.nil.cons rfl rfl).congr hoperators.symm)
      | member base key =>
        refine (lowerMember_folded hnode base key span).map fun m folded hm => ?_
        exact (hm.cons rfl rfl).congr (hoperators.trans (zero_add _)).symm
      | call callee args =>
        refine (hnode callee).bind fun n folded hn =>
          (mapM_folded hnode args).map fun ns folded' hns => ?_
        rw [subtrees, subtreesAll_eq]
        exact ((hn.append hns).cons rfl rfl).congr (hoperators.trans (zero_add _)).symm
      | array elements =>
        refine (mapM_folded hnode elements).map fun ns folded hns => ?_
        rw [subtrees, subtreesAll_eq]
        exact (hns.cons rfl rfl).congr (hoperators.trans (zero_add _)).symm
      | object entries =>
        refine (mapM_entries_folded hnode entries).map fun ns folded hns => ?_
        rw [subtrees, subtreesEntries_eq]
        exact (hns.cons rfl rfl).congr (hoperators.trans (zero_add _)).symm
      | binary op l r =>
        refine (hnode l).bind fun n folded hn => (hnode r).bind fun m folded' hm => ?_
        have hsum : a.operators (.value id) =
            1 + (a.operators (.value l) + a.operators (.value r)) :=
          hoperators.trans (by simp [ExprForm.isOperator, ExprForm.parts])
        rw [hsum]
        exact lowerBinary_folded op span hn hm
      | assign op target value =>
        refine (htarget _ target).bind fun t folded ht => (hnode value).map fun n folded' hn => ?_
        have hsum : a.operators (.value id) =
            a.operators ⟨target, op == .assign⟩ + a.operators (.value value) :=
          hoperators.trans (by simp [ExprForm.isOperator, ExprForm.parts])
        exact ((ht.append hn).cons rfl rfl).congr hsum.symm
      | arrayPattern | objectPattern => exact .throw _

/-- So does the lowering of targets. -/
theorem lowerTargetUpTo_folded (a : Arena) : (fuel : Nat) → (patterns : Bool) → (id : ExprId) →
    LowersFolded a ⟨id, patterns⟩ Target.subtrees (lowerTargetUpTo folding a fuel patterns id)
  | 0, patterns, id => by
    rw [lowerTargetUpTo]
    exact .throw _
  | fuel + 1, patterns, id => by
    have hnode := lowerUpTo_folded a fuel
    have htarget := lowerTargetUpTo_folded a fuel true
    rw [lowerTargetUpTo]
    cases he : a.get? id with
    | none => exact .throw _
    | some e =>
      have hoperators := Arena.operators_of_get? he patterns
      -- what is no target is lowered as a value, with the same operators in it
      have hinvalid : LowersFolded a ⟨id, patterns⟩ Target.subtrees
          (do return .invalid (← lowerUpTo folding a fuel id)) := by
        have hself := hoperators.trans (Arena.operators_of_get? he false).symm
        exact (hnode id).map fun n folded hn => hn.congr hself.symm
      obtain ⟨form, span⟩ := e
      cases form with
      | identifier name => exact .pure (FoldedFrom.nil.congr hoperators.symm)
      | member base key =>
        refine (lowerMember_folded hnode base key span).map fun m folded hm => ?_
        exact hm.congr (hoperators.trans (zero_add _)).symm
      | arrayPattern targets =>
        cases patterns with
        | false => exact .throw _
        | true =>
          refine (mapM_slots_folded htarget targets).map fun ts folded hts => ?_
          rw [Target.subtrees, Pattern.subtrees, Target.subtreesSlots_eq]
          exact hts.congr (hoperators.trans (zero_add _)).symm
      | objectPattern entries =>
        cases patterns with
        | false => exact .throw _
        | true =>
          refine (mapM_entries_folded htarget entries).map fun ts folded hts => ?_
          rw [Target.subtrees, Pattern.subtrees, Target.subtreesEntries_eq]
          exact hts.congr (hoperators.trans (zero_add _)).symm
      | _ => exact hinvalid

end

end Node

/-- A tree that was lowered is folded all through. The operators that the lowering counted and those
left in the tree are together as many as the source has, where what is shared counts once for each
path to it. Wherever there is an operator on two constants in the tree, it is one that never folds,
and every constant is a primitive. Nothing else can be left, because an operator that folds fails on
no two primitives. -/
theorem lowering_folds_all {a : Arena} {id : ExprId} {i j : Nat} {node : Node}
    (h : Node.lower a id i = .ok node j) :
    (a.operatorPaths (.value id)).encard + i = j + (node.subtrees.countP isOperator : Nat) ∧
      (∀ op u v span, .binary op (.constant u) (.constant v) span ∈ node.subtrees →
        op.isFoldable = false) ∧
      (∀ v : Value, .constant v ∈ node.subtrees → ∃ p : Primitive, v = p) ∧
      ∀ op : BinaryOp, op.isFoldable = true → ∀ (host : Host) (p q : Primitive),
        ∃ v : Primitive, op.evaluate host p q = pure (v : Value) := by
  obtain ⟨folded, rfl, hfolded⟩ := lowerUpTo_folded a _ id i node j h
  refine ⟨?_, hfolded.notFoldable, hfolded.isPrimitive, fun op hop host p q =>
    BinaryOp.evaluate_of_isFoldable hop host p q⟩
  have hcount : (a.operatorPaths (.value id)).encard = _ := hfolded.count
  rw [hcount, Nat.cast_add, add_comm, add_assoc]

/-- In `f["a" + "b"] = x in "a" + "b"`, where the sum is shared, it is folded at both places, and
the operator between the name and the constant is left. -/
theorem lowering_folds_all_shared :
    let a : Arena := ⟨#[⟨.literal (.str "a"), default⟩, ⟨.literal (.str "b"), default⟩,
      ⟨.binary .add 0 1, default⟩, ⟨.identifier "f", default⟩,
      ⟨.member 3 (.computed 2), default⟩, ⟨.identifier "x", default⟩,
      ⟨.binary .membership 5 2, default⟩, ⟨.assign .assign 4 6, default⟩]⟩
    let sum : Node := .constant (.str "ab")
    let node : Node :=
      .assign .assign (.member (.mk (.identifier "f" default) (.computed sum) default))
        (.binary .membership (.identifier "x" default) sum default) default
    Node.lower a 7 0 = .ok node 2 ∧ (a.operatorPaths (.value 7)).encard = 3 := by
  intro a sum node
  have hlower : Node.lower a 7 0 = .ok node 2 := rfl
  obtain ⟨hcount, -⟩ := lowering_folds_all hlower
  have hleft : node.subtrees.countP isOperator = 1 := rfl
  rw [hleft, Nat.cast_zero, add_zero] at hcount
  exact ⟨hlower, hcount⟩

end ScriptOps
