import Mathlib.Data.List.Basic
import Mathlib.Logic.Relation
import ScriptOps.Proofs.Agreement
import ScriptOps.Run

/-!
# Lowering finds the first defect

An expression of an arena is met at its occurrences: the root, and the parts of expressions that are
met. An occurrence is defective when no expression is at its place, or when a pattern stands where
only a value can. `Arena.preorder` lists the occurrences depth first and from left to right, and
lowering fails exactly with the first defect of this list. The walk has an end because parts lie
before the expressions they are parts of; what is shared is met once for each time it is referred
to, perhaps in another role.
-/

namespace ScriptOps

/-! ### Occurrences -/

/-- A place that is referred to, and whether a pattern may stand there. -/
structure Occurrence where
  /-- The place. -/
  id : Nat
  /-- Whether it is the target of a plain assignment or a part of a pattern. -/
  allowsPattern : Bool
deriving DecidableEq

/-- An occurrence that has to have a value. -/
def Occurrence.value (id : ExprId) : Occurrence :=
  ⟨id, false⟩

/-- An occurrence as a part of a pattern. -/
def Occurrence.target (id : ExprId) : Occurrence :=
  ⟨id, true⟩

namespace ExprForm

/-- The parts of an expression, in the order of evaluation. -/
def parts : ExprForm → List Occurrence
  | literal _ | identifier _ | function .. => []
  | member base (.named _) => [.value base]
  | member base (.computed key) => [.value base, .value key]
  | call callee args => .value callee :: args.map .value
  | array elements => elements.map .value
  | object entries => entries.map fun entry => .value entry.2
  | binary _ left right => [.value left, .value right]
  | assign op target value => [⟨target, op == .assign⟩, .value value]
  | arrayPattern targets => targets.flatMap fun slot => (slot.map .target).toList
  | objectPattern entries => entries.map fun entry => .target entry.2

/-- Whether the expression is a pattern. -/
def isPattern : ExprForm → Bool
  | arrayPattern _ | objectPattern _ => true
  | _ => false

end ExprForm

/-- The first hit in a list is in its head or in the rest. -/
theorem findSome?_cons_eq_or {α β : Type} (f : α → Option β) (x : α) (l : List α) :
    (x :: l).findSome? f = (f x).or (l.findSome? f) := by
  rw [List.findSome?_cons]
  cases f x <;> rfl

/-- What is found first in lists that are put together is found first in one of them. -/
theorem findSome?_flatMap {α β γ : Type} (f : β → Option γ) (g : α → List β) (l : List α) :
    (l.flatMap g).findSome? f = l.findSome? fun x => (g x).findSome? f := by
  induction l with
  | nil => rfl
  | cons x rest ih =>
    rw [List.flatMap_cons, List.findSome?_append, ih, findSome?_cons_eq_or]

namespace Arena

/-- The parts of the expression at an occurrence. -/
def parts (a : Arena) (o : Occurrence) : List Occurrence :=
  match a.get? o.id with
  | some e => e.form.parts
  | none => []

/-- What is wrong with an occurrence, its parts aside. -/
def defect? (a : Arena) (o : Occurrence) : Option BuildError :=
  match a.get? o.id with
  | some e => if e.form.isPattern && !o.allowsPattern then some (.misplacedPattern e.span) else none
  | none => some (.missing o.id)

/-- An occurrence is in order when there is an expression, and a pattern only where it may stand. -/
theorem defect?_eq_none_iff {a : Arena} {o : Occurrence} :
    a.defect? o = none ↔
      ∃ e, a.get? o.id = some e ∧ (e.form.isPattern = true → o.allowsPattern = true) := by
  unfold defect?
  cases a.get? o.id with
  | none => simp
  | some e => simp

/-- Every part lies before the expression that it is a part of, or nowhere in the arena. -/
def Descends (a : Arena) : Prop :=
  ∀ o, ∀ part ∈ a.parts o, part.id < o.id ∨ a.get? part.id = none

/-- That can be checked place by place. -/
theorem descends_iff {a : Arena} :
    a.Descends ↔ ∀ id < a.exprs.size, ∀ part ∈ a.parts (.value id),
      part.id < id ∨ a.get? part.id = none := by
  constructor
  · intro ha id _
    exact ha (.value id)
  · intro ha o part hpart
    refine ha o.id ?_ part hpart
    by_contra hsize
    have hnone : a.get? o.id = none := Array.getElem?_eq_none (Nat.le_of_not_lt hsize)
    rw [parts, hnone] at hpart
    nomatch hpart

instance (a : Arena) : Decidable a.Descends :=
  decidable_of_iff _ descends_iff.symm

/-- An occurrence and those below it, depth first and from left to right. A part that does not lie
before its expression is listed without what may be below it. -/
def preorder (a : Arena) (o : Occurrence) : List Occurrence :=
  o :: (a.parts o).flatMap fun part => if part.id < o.id then a.preorder part else [part]
termination_by o.id

variable {a : Arena}

/-- Nothing is below a place that does not exist. -/
theorem preorder_of_missing {o : Occurrence} (ho : a.get? o.id = none) : a.preorder o = [o] := by
  rw [preorder, parts, ho]
  rfl

/-- All that is below the parts is listed. -/
theorem preorder_eq (ha : a.Descends) (o : Occurrence) :
    a.preorder o = o :: (a.parts o).flatMap a.preorder := by
  rw [preorder]
  refine congrArg (o :: ·) (List.flatMap_congr fun part hpart => ?_)
  rcases ha o part hpart with hlt | hmissing
  · rw [if_pos hlt]
  · rw [preorder_of_missing hmissing, ite_self]

/-- The list holds what can be reached from part to part. -/
theorem mem_preorder_iff (ha : a.Descends) {o other : Occurrence} :
    other ∈ a.preorder o ↔ Relation.ReflTransGen (fun x y => y ∈ a.parts x) o other := by
  constructor
  · intro hmem
    generalize hn : o.id = n
    induction n using Nat.strongRecOn generalizing o with
    | ind n ih =>
      subst hn
      rw [preorder_eq ha] at hmem
      rcases List.mem_cons.1 hmem with rfl | hbelow
      · exact .refl
      · obtain ⟨part, hpart, hother⟩ := List.mem_flatMap.1 hbelow
        rcases ha o part hpart with hlt | hmissing
        · exact .head hpart (ih part.id hlt hother rfl)
        · rw [preorder_of_missing hmissing] at hother
          exact .single (List.mem_singleton.1 hother ▸ hpart)
  · intro hpath
    induction hpath using Relation.ReflTransGen.head_induction_on with
    | refl => rw [preorder_eq ha]; exact List.mem_cons_self
    | head hpart _ ih =>
      rw [preorder_eq ha]
      exact List.mem_cons_of_mem _ (List.mem_flatMap.2 ⟨_, hpart, ih⟩)

/-- The first defect at an occurrence or below it. -/
def firstDefect? (a : Arena) (o : Occurrence) : Option BuildError :=
  (a.preorder o).findSome? a.defect?

/-- An occurrence comes before its parts. -/
theorem firstDefect?_eq (ha : a.Descends) (o : Occurrence) :
    a.firstDefect? o = (a.defect? o).or ((a.parts o).findSome? a.firstDefect?) := by
  rw [firstDefect?, preorder_eq ha, findSome?_cons_eq_or, findSome?_flatMap]
  rfl

/-- An occurrence that is not in the arena is a defect itself. -/
theorem firstDefect?_of_missing (ha : a.Descends) {o : Occurrence} (ho : a.get? o.id = none) :
    a.firstDefect? o = some (.missing o.id) := by
  rw [firstDefect?_eq ha, defect?, ho, Option.some_or]

variable {id : ExprId} {e : Expr}

/-- A pattern in the place of a value is defective itself. -/
theorem firstDefect?_of_misplaced (ha : a.Descends) (he : a.get? id = some e)
    (hform : e.form.isPattern = true) :
    a.firstDefect? (.value id) = some (.misplacedPattern e.span) := by
  rw [firstDefect?_eq ha, defect?, Occurrence.value, he]
  simp [hform]

/-- What is in its place has the defects of its parts. -/
theorem firstDefect?_of_placed (ha : a.Descends) (he : a.get? id = some e) (patterns : Bool)
    (hform : e.form.isPattern = true → patterns = true) :
    a.firstDefect? ⟨id, patterns⟩ = e.form.parts.findSome? a.firstDefect? := by
  rw [firstDefect?_eq ha, defect?, parts, he]
  cases hpattern : e.form.isPattern with
  | true => simp [hform hpattern]
  | false => simp [hpattern]

end Arena

/-! ### Lowerings and the defects that they find -/

open Node

/-- The lowering fails with the defect if there is one, and gives something otherwise. -/
def Node.Lowering.Finds {α : Type} (x : Lowering α) : Option BuildError → Prop
  | some e => ∀ folded, ∃ folded', x folded = .error e folded'
  | none => ∀ folded, ∃ b folded', x folded = .ok b folded'

namespace Node.Lowering.Finds

variable {α β ι : Type} {x : Lowering α} {d d' : Option BuildError}

/-- It gives something when there is no defect. -/
theorem ok_iff (h : x.Finds d) (folded : Nat) :
    (∃ b folded', x folded = .ok b folded') ↔ d = none := by
  cases d with
  | none => exact ⟨fun _ => rfl, fun _ => h folded⟩
  | some e =>
    obtain ⟨folded', herror⟩ := h folded
    refine ⟨?_, nofun⟩
    rintro ⟨b, folded'', hok⟩
    nomatch herror.symm.trans hok

/-- It fails with the defect, and with no other. -/
theorem error_iff (h : x.Finds d) (folded : Nat) (e : BuildError) :
    (∃ folded', x folded = .error e folded') ↔ d = some e := by
  cases d with
  | none =>
    obtain ⟨b, folded', hok⟩ := h folded
    refine ⟨?_, nofun⟩
    rintro ⟨folded'', herror⟩
    nomatch hok.symm.trans herror
  | some e' =>
    obtain ⟨folded', herror⟩ := h folded
    constructor
    · rintro ⟨folded'', herror'⟩
      cases herror.symm.trans herror'
      rfl
    · rintro ⟨⟩
      exact ⟨folded', herror⟩

/-- What is found may be given another way. -/
theorem congr (h : x.Finds d) (hd : d = d') : x.Finds d' :=
  hd ▸ h

/-- A value finds no defect. -/
theorem pure (b : α) : Finds (pure b) none :=
  fun folded => ⟨b, folded, rfl⟩

/-- A failure finds its defect. -/
theorem throw (e : BuildError) : Finds (throw e : Lowering α) (some e) :=
  fun folded => ⟨folded, rfl⟩

/-- A sequence finds what its first part finds, and otherwise what its second part does. -/
theorem bind {f : α → Lowering β} (hx : x.Finds d) (hf : ∀ b, (f b).Finds d') :
    (x >>= f).Finds (d.or d') := by
  cases d with
  | some e =>
    intro folded
    obtain ⟨folded', hfails⟩ := hx folded
    exact ⟨folded', bind_of_error hfails⟩
  | none =>
    rw [Option.none_or]
    cases d' with
    | some e =>
      intro folded
      obtain ⟨b, folded', hok⟩ := hx folded
      obtain ⟨folded'', hfails⟩ := hf b folded'
      exact ⟨folded'', (bind_of_ok hok).trans hfails⟩
    | none =>
      intro folded
      obtain ⟨b, folded', hok⟩ := hx folded
      obtain ⟨c, folded'', hok'⟩ := hf b folded'
      exact ⟨c, folded'', (bind_of_ok hok).trans hok'⟩

/-- What is made of a value has no defect. -/
theorem map (hx : x.Finds d) (f : α → β) : Finds (do return f (← x)) d :=
  (hx.bind fun b => pure (f b)).congr Option.or_none

/-- A list is lowered from left to right. -/
theorem mapM {f : ι → Lowering α} {defect? : ι → Option BuildError} {l : List ι}
    (hf : ∀ i ∈ l, (f i).Finds (defect? i)) : (l.mapM f).Finds (l.findSome? defect?) := by
  induction l with
  | nil => exact pure []
  | cons i rest ih =>
    rw [List.mapM_cons, findSome?_cons_eq_or]
    have hrest := ih fun j hj => hf j (List.mem_cons_of_mem i hj)
    exact (hf i List.mem_cons_self).bind fun b => hrest.map (b :: ·)

end Node.Lowering.Finds

/-! ### Parts -/

section

variable {defect? : Occurrence → Option BuildError}

/-- Expressions are lowered one after the other. -/
theorem mapM_finds {lower : ExprId → Lowering Node} {ids : List ExprId}
    (hlower : ∀ id ∈ ids, (lower id).Finds (defect? (.value id))) :
    (ids.mapM lower).Finds ((ids.map .value).findSome? defect?) := by
  rw [List.findSome?_map]
  exact .mapM hlower

/-- So are entries, as values or as targets. -/
theorem mapM_entries_finds {α : Type} {lower : ExprId → Lowering α} (patterns : Bool)
    {entries : List (String × ExprId)}
    (hlower : ∀ entry ∈ entries, (lower entry.2).Finds (defect? ⟨entry.2, patterns⟩)) :
    Lowering.Finds (entries.mapM fun (key, id) => return (key, ← lower id) :
        Lowering (List (String × α)))
      ((entries.map fun entry => ⟨entry.2, patterns⟩).findSome? defect?) := by
  rw [List.findSome?_map]
  exact .mapM fun entry hentry => (hlower entry hentry).map (entry.1, ·)

/-- So are the targets of a list, where there is one. -/
theorem mapM_slots_finds {lower : ExprId → Lowering Target} {slots : List (Option ExprId)}
    (hlower : ∀ id, some id ∈ slots → (lower id).Finds (defect? (.target id))) :
    Lowering.Finds (slots.mapM fun
        | some id => return some (← lower id)
        | none => return none : Lowering (List (Option Target)))
      ((slots.flatMap fun slot => (slot.map Occurrence.target).toList).findSome? defect?) := by
  rw [findSome?_flatMap]
  refine .mapM fun slot hslot => ?_
  cases slot with
  | none => exact .pure none
  | some id =>
    refine ((hlower id hslot).map some).congr ?_
    rw [Option.map_some, Option.toList_some, findSome?_cons_eq_or, List.findSome?_nil,
      Option.or_none]

/-- A member is lowered from its object to its key. -/
theorem lowerMember_finds {lower : ExprId → Lowering Node} {base : ExprId} {key : ExprKey}
    (hlower : ∀ part ∈ (ExprForm.member base key).parts, part.allowsPattern = false →
      (lower part.id).Finds (defect? part)) (span : Span) :
    (lowerMember lower base key span).Finds
      ((ExprForm.member base key).parts.findSome? defect?) := by
  cases key with
  | named name =>
    have hbase := hlower (.value base) (by simp [ExprForm.parts]) rfl
    refine (hbase.map fun b => Member.mk b (.named name) span).congr ?_
    rw [ExprForm.parts, findSome?_cons_eq_or, List.findSome?_nil, Option.or_none]
  | computed id =>
    have hbase := hlower (.value base) (by simp [ExprForm.parts]) rfl
    have hkey := hlower (.value id) (by simp [ExprForm.parts]) rfl
    refine (hbase.bind fun b => hkey.map fun k => Member.mk b (.computed k) span).congr ?_
    rw [ExprForm.parts, findSome?_cons_eq_or, findSome?_cons_eq_or, List.findSome?_nil,
      Option.or_none]

/-- Putting an operator together has no defect. -/
theorem lowerBinary_finds (combine : Combine) (op : BinaryOp) (l r : Node) (span : Span) :
    (lowerBinary combine op l r span).Finds none := by
  intro folded
  unfold lowerBinary
  dsimp only
  split
  · exact ⟨_, _, rfl⟩
  · exact ⟨_, _, rfl⟩

end

/-! ### Lowering finds the first defect -/

section

variable {a : Arena} {combine : Combine} {fuel : Nat} {id : ExprId} {e : Expr}

/-- An expression is lowered by its parts, as values or as targets. -/
theorem lowerUpTo_succ_finds (ha : a.Descends) (he : a.get? id = some e)
    (hvalue : ∀ part ∈ e.form.parts, part.allowsPattern = false →
      (lowerUpTo combine a fuel part.id).Finds (a.firstDefect? part))
    (htarget : ∀ part ∈ e.form.parts,
      (lowerTargetUpTo combine a fuel part.allowsPattern part.id).Finds (a.firstDefect? part)) :
    (lowerUpTo combine a (fuel + 1) id).Finds (a.firstDefect? (.value id)) := by
  rw [lowerUpTo, he]
  cases hpattern : e.form.isPattern with
  | true =>
    rw [Arena.firstDefect?_of_misplaced ha he hpattern]
    obtain ⟨form, span⟩ := e
    cases form with
    | arrayPattern targets => exact .throw _
    | objectPattern entries => exact .throw _
    | _ => exact absurd hpattern Bool.false_ne_true
  | false =>
    have hplaced := Arena.firstDefect?_of_placed ha he false fun h =>
      absurd (hpattern.symm.trans h) Bool.false_ne_true
    rw [Occurrence.value, hplaced]
    obtain ⟨form, span⟩ := e
    cases form with
    | literal p => exact .pure _
    | identifier name => exact .pure _
    | function name? kind => exact .pure _
    | member base key => exact (lowerMember_finds hvalue span).map _
    | call callee args =>
      have hcallee := hvalue (.value callee) List.mem_cons_self rfl
      have hargs : (args.mapM (lowerUpTo combine a fuel)).Finds
          ((args.map .value).findSome? a.firstDefect?) :=
        mapM_finds fun arg harg =>
          hvalue (.value arg) (List.mem_cons_of_mem _ (List.mem_map_of_mem harg)) rfl
      refine (hcallee.bind fun c => hargs.map fun as => Node.call c as span).congr ?_
      rw [ExprForm.parts, findSome?_cons_eq_or]
    | array elements =>
      have helements : (elements.mapM (lowerUpTo combine a fuel)).Finds
          ((elements.map .value).findSome? a.firstDefect?) :=
        mapM_finds fun element helement =>
          hvalue (.value element) (List.mem_map_of_mem helement) rfl
      exact helements.map _
    | object entries =>
      have hvalues (entry : String × ExprId) (hentry : entry ∈ entries) :
          (lowerUpTo combine a fuel entry.2).Finds (a.firstDefect? ⟨entry.2, false⟩) :=
        hvalue (.value entry.2) (List.mem_map.2 ⟨entry, hentry, rfl⟩) rfl
      exact (mapM_entries_finds false hvalues).map _
    | binary op left right =>
      have hleft := hvalue (.value left) (by simp [ExprForm.parts]) rfl
      have hright := hvalue (.value right) (by simp [ExprForm.parts]) rfl
      refine (hleft.bind fun l => hright.bind fun r =>
        lowerBinary_finds combine op l r span).congr ?_
      rw [ExprForm.parts, findSome?_cons_eq_or, findSome?_cons_eq_or, List.findSome?_nil]
    | assign op target value =>
      have htarget := htarget ⟨target, op == .assign⟩ (by simp [ExprForm.parts])
      have hvalue := hvalue (.value value) (by simp [ExprForm.parts]) rfl
      refine (htarget.bind fun t => hvalue.map fun v => Node.assign op t v span).congr ?_
      rw [ExprForm.parts, findSome?_cons_eq_or, findSome?_cons_eq_or, List.findSome?_nil,
        Option.or_none]
    | arrayPattern | objectPattern => exact absurd hpattern.symm Bool.false_ne_true

/-- A target is lowered by its parts, or as a value when it is no reference. -/
theorem lowerTargetUpTo_succ_finds (ha : a.Descends) (he : a.get? id = some e) (patterns : Bool)
    (hself : (lowerUpTo combine a fuel id).Finds (a.firstDefect? (.value id)))
    (hvalue : ∀ part ∈ e.form.parts, part.allowsPattern = false →
      (lowerUpTo combine a fuel part.id).Finds (a.firstDefect? part))
    (htarget : ∀ part ∈ e.form.parts,
      (lowerTargetUpTo combine a fuel part.allowsPattern part.id).Finds (a.firstDefect? part)) :
    (lowerTargetUpTo combine a (fuel + 1) patterns id).Finds (a.firstDefect? ⟨id, patterns⟩) := by
  have hplaced := Arena.firstDefect?_of_placed ha he patterns
  -- what is no target is lowered as a value, and refused when it is assigned to
  have hinvalid (hform : e.form.isPattern = false) :
      Lowering.Finds (return .invalid (← lowerUpTo combine a fuel id) : Lowering Target)
        (a.firstDefect? ⟨id, patterns⟩) := by
    have hnot : ¬e.form.isPattern = true := Bool.eq_false_iff.1 hform
    refine (hself.map Target.invalid).congr ?_
    rw [hplaced fun h => absurd h hnot, Occurrence.value,
      Arena.firstDefect?_of_placed ha he false fun h => absurd h hnot]
  rw [lowerTargetUpTo, he]
  obtain ⟨form, span⟩ := e
  cases form with
  | identifier name =>
    rw [hplaced fun h => absurd h Bool.false_ne_true]
    exact .pure _
  | member base key =>
    rw [hplaced fun h => absurd h Bool.false_ne_true]
    exact (lowerMember_finds hvalue span).map _
  | arrayPattern targets =>
    cases patterns with
    | false =>
      rw [← Occurrence.value, Arena.firstDefect?_of_misplaced ha he rfl]
      exact .throw _
    | true =>
      rw [hplaced fun _ => rfl]
      have htargets := mapM_slots_finds fun id hid =>
        htarget (.target id) (List.mem_flatMap.2 ⟨some id, hid, List.mem_singleton_self _⟩)
      exact htargets.map fun targets => Target.pattern (.array targets)
  | objectPattern entries =>
    cases patterns with
    | false =>
      rw [← Occurrence.value, Arena.firstDefect?_of_misplaced ha he rfl]
      exact .throw _
    | true =>
      rw [hplaced fun _ => rfl]
      have htargets (entry : String × ExprId) (hentry : entry ∈ entries) :
          (lowerTargetUpTo combine a fuel true entry.2).Finds (a.firstDefect? ⟨entry.2, true⟩) :=
        htarget (.target entry.2) (List.mem_map.2 ⟨entry, hentry, rfl⟩)
      exact (mapM_entries_finds true htargets).map fun entries => Target.pattern (.object entries)
  | literal | call | function | array | object | binary | assign => exact hinvalid rfl

/-- With enough fuel lowering finds the first defect. Two steps for each place are enough, one of
them for a target that is lowered as a value. -/
theorem lowerUpTo_finds (ha : a.Descends) (fuel : Nat) :
    (∀ id : Nat, 0 < fuel → (a.get? id ≠ none → 2 * id + 2 ≤ fuel) →
      (lowerUpTo combine a fuel id).Finds (a.firstDefect? (.value id))) ∧
    ∀ (id : Nat) (patterns : Bool), 0 < fuel → (a.get? id ≠ none → 2 * id + 3 ≤ fuel) →
      (lowerTargetUpTo combine a fuel patterns id).Finds (a.firstDefect? ⟨id, patterns⟩) := by
  -- parts have smaller numbers; a target may be lowered once more, as a value, under its own
  -- number
  induction fuel with
  | zero => exact ⟨fun _ h => absurd h (Nat.lt_irrefl 0), fun _ _ h => absurd h (Nat.lt_irrefl 0)⟩
  | succ fuel ih =>
    obtain ⟨ihvalue, ihtarget⟩ := ih
    have hbelow {id : Nat} {e : Expr} (he : a.get? id = some e) (hfuel : 2 * id + 1 ≤ fuel) :
        ∀ part ∈ e.form.parts, 0 < fuel ∧ (a.get? part.id ≠ none → 2 * part.id + 3 ≤ fuel) := by
      intro part hpart
      have hdescends := ha (.value id) part (by rw [Arena.parts, Occurrence.value, he]; exact hpart)
      refine ⟨by omega, fun hfound => ?_⟩
      have hlt : part.id < id := hdescends.resolve_right hfound
      omega
    have hvalue {id : Nat} {e : Expr} (he : a.get? id = some e) (hfuel : 2 * id + 1 ≤ fuel) :
        ∀ part ∈ e.form.parts, part.allowsPattern = false →
          (lowerUpTo combine a fuel part.id).Finds (a.firstDefect? part) := by
      rintro ⟨child, patterns⟩ hpart rfl
      obtain ⟨hpos, hchild⟩ := hbelow he hfuel _ hpart
      exact ihvalue child hpos fun hfound => Nat.le_of_succ_le (hchild hfound)
    have htarget {id : Nat} {e : Expr} (he : a.get? id = some e) (hfuel : 2 * id + 1 ≤ fuel) :
        ∀ part ∈ e.form.parts,
          (lowerTargetUpTo combine a fuel part.allowsPattern part.id).Finds
            (a.firstDefect? part) := by
      intro part hpart
      obtain ⟨hpos, hchild⟩ := hbelow he hfuel part hpart
      exact ihtarget part.id part.allowsPattern hpos hchild
    constructor
    · intro id _ hfuel
      cases he : a.get? id with
      | none =>
        rw [Arena.firstDefect?_of_missing ha he, lowerUpTo, he]
        exact .throw _
      | some e =>
        have hfuel' := hfuel (he ▸ Option.some_ne_none e)
        exact lowerUpTo_succ_finds ha he (hvalue he (by omega)) (htarget he (by omega))
    · intro id patterns _ hfuel
      cases he : a.get? id with
      | none =>
        rw [Arena.firstDefect?_of_missing ha (o := ⟨id, patterns⟩) he, lowerTargetUpTo, he]
        exact .throw _
      | some e =>
        have hfuel' := hfuel (he ▸ Option.some_ne_none e)
        have hself := ihvalue id (by omega) fun _ => by omega
        exact lowerTargetUpTo_succ_finds ha he patterns hself (hvalue he (by omega))
          (htarget he (by omega))

/-- The fuel of lowering is enough. -/
theorem lowerWith_finds (ha : a.Descends) (combine : Combine) (root : Nat) :
    (lowerWith combine a root).Finds (a.firstDefect? (.value root)) := by
  refine (lowerUpTo_finds ha _).1 root (Nat.succ_pos _) fun hfound => ?_
  have hlt : root < a.exprs.size := by
    by_contra hge
    exact hfound (Array.getElem?_eq_none (Nat.le_of_not_lt hge))
  omega

end

/-! ### Runs -/

/-- A run ends with a defect when lowering does, and then the machine is as it was. -/
theorem run_eq_build_error_iff {s : Settings} {a : Arena} {root : ExprId} {m m' : Machine}
    {e : BuildError} :
    run s a root m = .error (.build e) m' ↔
      m' = m ∧ ∃ folded, Node.lower a root 0 = .error e folded := by
  unfold run
  cases Node.lower a root 0 with
  | error e' folded =>
    constructor
    · intro h
      cases h
      exact ⟨rfl, folded, rfl⟩
    · rintro ⟨rfl, _, h⟩
      cases h
      rfl
  | ok n folded =>
    have hne : EStateM.adaptExcept RunError.eval (evaluate s n) m ≠ .error (.build e) m' := by
      unfold EStateM.adaptExcept
      cases evaluate s n m <;> nofun
    exact ⟨fun h => absurd h hne, fun h => nomatch h.2⟩

/-- Lowering accepts exactly the expressions that are in order, and reports the first defect of the
others. If every part lies before its expression or nowhere, an expression is lowered exactly when
all places that can be reached from it exist and every pattern among them is the target of a plain
assignment or a part of such a pattern. Otherwise the error is that of the first defective
occurrence, depth first and from left to right. A run that ends with a defect leaves the machine as
it was, and any other is the evaluation of the tree in the machine as it was. -/
theorem lowering_finds_first_defect {a : Arena} (ha : a.Descends) (root : ExprId) :
    ((∃ n folded, Node.lower a root 0 = .ok n folded) ↔
      ∀ o, Relation.ReflTransGen (fun x y => y ∈ a.parts x) (.value root) o →
        ∃ e, a.get? o.id = some e ∧ (e.form.isPattern = true → o.allowsPattern = true)) ∧
    (∀ e, (∃ folded, Node.lower a root 0 = .error e folded) ↔
      ∃ before o after, a.preorder (.value root) = before ++ o :: after ∧ a.defect? o = some e ∧
        ∀ earlier ∈ before, a.defect? earlier = none) ∧
    (∀ o, a.preorder o = o :: (a.parts o).flatMap a.preorder) ∧
    ∀ (s : Settings) (m : Machine),
      (∀ e m', run s a root m = .error (.build e) m' ↔
        m' = m ∧ ∃ folded, Node.lower a root 0 = .error e folded) ∧
      ∀ n folded, Node.lower a root 0 = .ok n folded →
        run s a root m = EStateM.adaptExcept .eval (evaluate s n) m := by
  have hfinds := lowerWith_finds ha folding root
  have hok := hfinds.ok_iff 0
  have herror := hfinds.error_iff 0
  refine ⟨?_, fun e => ?_, Arena.preorder_eq ha,
    fun s m => ⟨fun e m' => run_eq_build_error_iff, ?_⟩⟩
  · rw [lower, hok, Arena.firstDefect?, List.findSome?_eq_none_iff]
    simp only [Arena.mem_preorder_iff ha, Arena.defect?_eq_none_iff]
  · rw [lower, herror, Arena.firstDefect?, List.findSome?_eq_some_iff]
  · intro n folded hlowered
    rw [run, hlowered]

/-- The array pattern at 1 is shared by a plain assignment, where it may stand, and a call, where it
may not. The call meets it before the place 9, where there is nothing. -/
theorem lowering_finds_first_defect_shared :
    let a : Arena := ⟨#[⟨.identifier "x", ⟨0, 1⟩⟩, ⟨.arrayPattern [none, some 0], ⟨2, 6⟩⟩,
      ⟨.literal .null, ⟨7, 8⟩⟩, ⟨.assign .assign 1 2, ⟨2, 8⟩⟩, ⟨.call 3 [1, 9], ⟨2, 9⟩⟩]⟩
    a.Descends ∧ (∃ folded, Node.lower a 4 0 = .error (.misplacedPattern ⟨2, 6⟩) folded) ∧
      a.defect? (.value 9) = some (.missing 9) := by
  intro a
  have ha : a.Descends := by decide
  obtain ⟨-, herror, -⟩ := lowering_finds_first_defect ha 4
  refine ⟨ha, (herror _).2 ?_, by decide⟩
  have hpreorder : a.preorder (.value 4) =
      [.value 4, .value 3, .target 1, .target 0, .value 2, .value 1, .target 0, .value 9] := by cbv
  exact ⟨[.value 4, .value 3, .target 1, .target 0, .value 2], .value 1, [.target 0, .value 9],
    hpreorder, by decide, by decide⟩

end ScriptOps
