import ScriptOps.Proofs.DirectAssignment

/-!
# Logical assignments

A logical assignment reads its target through a slot of the pool. If reading fails, or if the
operator keeps the value that was read, the right-hand side is not evaluated and nothing is written,
so that it does not matter whether the target could be written at all. Otherwise the logical
assignment does what the plain assignment does.

The logical assignment itself is not counted among the compound assignments. Those that its
right-hand side contains are, as everywhere.
-/

namespace ScriptOps

open Eval

/-- The operators that assign only where the value of the target calls for it. -/
def AssignOp.IsLogical (op : AssignOp) : Prop :=
  op = .and ∨ op = .or ∨ op = .nullish

/-- The values that a logical assignment keeps. -/
inductive AssignOp.Keeps : AssignOp → Value → Prop where
  | and {v : Value} : v.toBool = false → Keeps .and v
  | or {v : Value} : v.toBool = true → Keeps .or v
  | nullish {v : Value} : v.isNullish = false → Keeps .nullish v

/-- The operator keeps a value exactly as its table says. -/
theorem Eval.keeps_iff (op : AssignOp) (v : Value) : keeps op v = true ↔ op.Keeps v := by
  constructor
  · intro h
    cases op with
    | and => exact .and (by simpa [keeps] using h)
    | or => exact .or h
    | nullish => exact .nullish (by simpa [keeps] using h)
    | _ => nomatch h
  · rintro (h | h | h) <;> simp [keeps, h]

/-- A logical assignment reads its target, and then either keeps the value or does what a plain
assignment does. -/
theorem Eval.assignBy_logical (s : Settings) {op : AssignOp} (hop : op.IsLogical)
    (value read : Eval Value) (write : Value → Eval Unit) :
    assignBy s op value read write = (do
      let current ← read
      if keeps op current then return current
      else assignBy s .assign value read write) := by
  rcases hop with rfl | rfl | rfl <;> rfl

/-! ### Reading a reference -/

/-- A reference to a name reads the binding in its scope. -/
theorem Reference.read_of_some {name : String} {scope : ScopeId} {m : Machine} {v : Value}
    (hown : (m.env.store.scope scope).getOwn? name = some v) :
    (Reference.binding name scope).read m = .ok v m := by
  have hget : (get : Eval Machine) m = .ok m m := rfl
  rw [Reference.read, bind_of_ok hget, hown]
  rfl

/-- Without a binding there it fails. -/
theorem Reference.read_of_none {name : String} {scope : ScopeId} {m : Machine}
    (hown : (m.env.store.scope scope).getOwn? name = none) :
    (Reference.binding name scope).read m = .error (.ofCause (.undeclared name)) m := by
  have hget : (get : Eval Machine) m = .ok m m := rfl
  rw [Reference.read, bind_of_ok hget, hown]
  rfl

/-- Reading a reference depends on the bindings and the world alone, and leaves the machine as it
was. -/
theorem Reference.read_cases (r : Reference) (m : Machine) :
    (∃ v, ∀ n : Machine, n.env = m.env → n.world = m.world → r.read n = .ok v n) ∨
      ∃ e, ∀ n : Machine, n.env = m.env → n.world = m.world → r.read n = .error e n := by
  cases r with
  | binding name scope =>
    cases hown : (m.env.store.scope scope).getOwn? name with
    | some v => exact .inl ⟨v, fun n henv _ => read_of_some (henv ▸ hown)⟩
    | none => exact .inr ⟨_, fun n henv _ => read_of_none (henv ▸ hown)⟩
  | unresolvable name => exact .inr ⟨_, fun _ _ _ => rfl⟩
  | property base key =>
    cases base with
    | object id =>
      refine .inl ⟨m.world.heap.get id key, fun n _ hworld => ?_⟩
      rw [← hworld]
      rfl
    | primitive p =>
      cases p with
      | undefined | null => exact .inr ⟨_, fun _ _ _ => rfl⟩
      | bool | int | number | str => exact .inl ⟨_, fun _ _ _ => rfl⟩

/-! ### Places -/

/-- The reference that a place stands for, unless it is a member of a name that is declared nowhere.
-/
def Place.reference? (m : Machine) : Place → Option Reference
  | name x => some (.ofName x (m.env.resolve? x))
  | property object key => (m.env.lookup? object).map (.property · key)

section Places

variable {s : Settings} {t : Place} {m : Machine} {r : Reference}

/-- Reading a place reads its reference. -/
theorem Place.read_agrees (hm : m.env.IsLinked) (ht : t.reference? m = some r)
    (outer inner : Span) :
    Agree Eq Error.SameCause Eq (r.read m) (evaluate s (t.node outer inner) m) := by
  cases t with
  | name x =>
    cases ht
    rw [Place.node, evaluate_identifier_eq]
    cases hresolve : m.env.resolve? x with
    | none =>
      rw [hm.lookup?_eq, hresolve]
      exact .error (Error.cause_locate _ _).symm rfl
    | some scope =>
      obtain ⟨v, hown, hlookup⟩ := Environment.getOwn?_of_resolve? hm hresolve
      have hread : (Reference.ofName x (some scope)).read m = .ok v m :=
        Reference.read_of_some hown
      rw [hlookup, hread]
      exact .ok rfl rfl
  | property object key =>
    obtain ⟨base, hlookup, rfl⟩ := Option.map_eq_some_iff.1 ht
    rw [Place.node, evaluate_member_eq hlookup]
    refine Agree.locateRight outer ?_
    change Agree _ _ _ (lift (getProperty base key) m) _
    rcases lift_getProperty_eq base key m with ⟨v, hv⟩ | ⟨e, he⟩
    · rw [hv]
      exact .ok rfl rfl
    · rw [he]
      exact .error rfl rfl

/-- A member of a name that is declared nowhere can neither be read nor be assigned to. -/
theorem Place.undeclared (s : Settings) (ht : t.reference? m = none) :
    ∃ c, ∀ outer inner : Span,
      evaluate s (t.node outer inner) m = .error ((Error.ofCause c).locate inner) m ∧
        ∀ op value span, evaluate s (.assign op (t.target outer inner) value span) m =
          .error ((Error.ofCause c).locate inner) m := by
  cases t with
  | name x => nomatch ht
  | property object key =>
    have hlookup : m.env.lookup? object = none := Option.map_eq_none_iff.1 ht
    refine ⟨.undeclared object, fun outer inner => ?_⟩
    have hparts : evaluateParts s (.mk (.identifier object inner) (.named key) outer) m = _ :=
      evaluateParts_undeclared hlookup inner outer
    constructor
    · rw [Place.node, evaluate]
      exact bind_of_error hparts
    · intro op value span
      rw [Place.target, evaluate]
      exact bind_of_error hparts

/-- A place that has a value has a reference, and the value is read there whatever the pool
holds. -/
theorem Place.reference_of_read_ok (hm : m.env.IsLinked) {outer inner : Span} {v : Value}
    {n : Machine} (hread : evaluate s (t.node outer inner) m = .ok v n) :
    ∃ r, t.reference? m = some r ∧
      ∀ m' : Machine, m'.env = m.env → m'.world = m.world → r.read m' = .ok v m' := by
  cases ht : t.reference? m with
  | none =>
    obtain ⟨c, hc⟩ := Place.undeclared s ht
    nomatch hread.symm.trans (hc outer inner).1
  | some r =>
    have hagree := Place.read_agrees (s := s) hm ht outer inner
    rw [hread] at hagree
    rcases r.read_cases m with ⟨u, hu⟩ | ⟨e, he⟩
    · rw [hu m rfl rfl] at hagree
      obtain ⟨hvalue, -⟩ := hagree
      exact ⟨r, rfl, hvalue ▸ hu⟩
    · rw [he m rfl rfl] at hagree
      nomatch hagree

/-- A place that cannot be read has no reference, or its reference cannot be read whatever the pool
holds. -/
theorem Place.reference_of_read_error (hm : m.env.IsLinked) {outer inner : Span} {f : Error}
    {n : Machine} (hread : evaluate s (t.node outer inner) m = .error f n) :
    t.reference? m = none ∨ ∃ r e, t.reference? m = some r ∧ e.cause = f.cause ∧
      ∀ m' : Machine, m'.env = m.env → m'.world = m.world → r.read m' = .error e m' := by
  cases ht : t.reference? m with
  | none => exact .inl rfl
  | some r =>
    have hagree := Place.read_agrees (s := s) hm ht outer inner
    rw [hread] at hagree
    rcases r.read_cases m with ⟨u, hu⟩ | ⟨e, he⟩
    · rw [hu m rfl rfl] at hagree
      nomatch hagree
    · rw [he m rfl rfl] at hagree
      cases hagree with
      | error hcause _ => exact .inr ⟨r, e, rfl, hcause, he⟩

/-- An assignment to a place goes through its reference, unless it is a plain one to a name. -/
theorem Place.evaluate_assign (hname : ∀ x, t = .name x → s.refuses x = false)
    (ht : t.reference? m = some r) {op : AssignOp} (hop : op ≠ .assign) (value : Node)
    (outer inner span : Span) :
    evaluate s (.assign op (t.target outer inner) value span) m =
      locate span (withReference r (assignThrough s op (evaluate s value))) m := by
  cases t with
  | name x =>
    cases ht
    rw [Place.target, evaluate, if_neg hop, assignNameThrough_eq (hname x rfl)]
  | property object key =>
    obtain ⟨base, hlookup, rfl⟩ := Option.map_eq_some_iff.1 ht
    rw [Place.target, evaluate, bind_of_ok (evaluateParts_eq hlookup inner outer)]

/-- A plain assignment to a place does what it does through the reference of the place. -/
theorem Place.writeThrough_agrees_assign (hname : ∀ x, t = .name x → s.refuses x = false)
    (hm : m.references.Valid) (ht : t.reference? m = some r) {e : Node}
    (he : e.isAnonymousFunction = false) (outer inner span : Span) :
    Agree Eq Error.SameCause (fun m' n' => ∃ k ≤ 1, m'.Ahead k n')
      (withReference r (writeThrough s (evaluate s e)) m)
      (evaluate s (.assign .assign (t.target outer inner) e span) m) := by
  cases t with
  | name x =>
    cases ht
    have hreserved := checkReserved_of_not_refuses (hname x rfl) m
    rw [Place.target, evaluate, if_pos rfl, he]
    refine Agree.locateRight span ?_
    rw [assignName_eq hreserved]
    exact (writeThrough_agrees s x (m.env.resolve? x) e hm).mono (fun _ _ hv => hv)
      (fun _ _ herror => congrArg Error.cause herror) fun _ _ h => ⟨1, le_rfl, h.ahead⟩
  | property object key =>
    obtain ⟨base, hlookup, rfl⟩ := Option.map_eq_some_iff.1 ht
    rw [Place.target, evaluate, bind_of_ok (evaluateParts_eq hlookup inner outer)]
    refine Agree.locateRight span ?_
    have hself (m' : Machine) : ∃ k ≤ 1, m'.Ahead k m' :=
      ⟨0, Nat.zero_le 1, ⟨rfl, rfl, rfl, fun _ => rfl⟩, rfl⟩
    change Agree _ _ _ _ (withReference (.property base key) (writeThrough s (evaluate s e)) m)
    cases withReference (.property base key) (writeThrough s (evaluate s e)) m with
    | ok v m' => exact .ok rfl (hself m')
    | error f m' => exact .error rfl (hself m')

end Places

/-! ### What is counted -/

/-- Taking over bindings counts nothing. -/
theorem Eval.stats_commit (s : Settings) (name : String)
    (written : Except BindingError Environment) (m : Machine) :
    ((commit s name written).after m).stats = m.stats := by
  cases written with
  | ok env => rfl
  | error cause =>
    cases cause with
    | immutable | undeclared => rfl
    | readOnly =>
      change ((if s.strict then fail (.readOnlyBinding name)
        else return () : Eval Unit).after m).stats = m.stats
      split <;> rfl

/-- Writing a name counts nothing. -/
theorem Eval.stats_writeName (s : Settings) (scope? : Option ScopeId) (name : String) (v : Value)
    (m : Machine) : ((writeName s scope? name v).after m).stats = m.stats := by
  cases scope? with
  | some id => exact stats_commit s name (m.env.setOwn id name v) m
  | none =>
    change ((if s.strict then fail (.undeclared name)
      else commit s name (m.env.defineOrAssign name v) : Eval Unit).after m).stats = m.stats
    split
    · rfl
    · exact stats_commit s name _ m

/-- An effect on the world counts nothing. -/
theorem Eval.stats_lift {α : Type} (x : Action α) (m : Machine) :
    ((lift x).after m).stats = m.stats := by
  unfold Eval.after lift
  cases x m.world <;> rfl

/-- Writing through a slot counts nothing. -/
theorem Eval.stats_putValue (s : Settings) (id : RefId) (v : Value) (m : Machine) :
    ((putValue s id v).after m).stats = m.stats := by
  unfold Eval.after
  rw [putValue, pooled_bind]
  cases m.references.get? id with
  | none => rfl
  | some r =>
    cases r with
    | binding name scope => exact stats_writeName s (some scope) name v m
    | unresolvable name => exact stats_writeName s none name v m
    | property base key => exact stats_lift (putProperty s.strict base key v) m

/-- Writing through a reference counts what the value counts. -/
theorem Eval.stats_writeThrough (s : Settings) (value : Eval Value) (id : RefId) (m : Machine) :
    ((writeThrough s value id).after m).stats = (value.after m).stats := by
  unfold writeThrough Eval.after
  cases hvalue : value m with
  | error e m' => rw [bind_of_error hvalue]
  | ok v m' =>
    rw [bind_of_ok hvalue]
    have hput := stats_putValue s id v m'
    unfold Eval.after at hput
    cases hwritten : putValue s id v m' with
    | error e n =>
      rw [hwritten] at hput
      rwa [bind_of_error hwritten]
    | ok _ n =>
      rw [hwritten] at hput
      rw [bind_of_ok hwritten]
      exact hput

/-- A plain assignment counts the compound assignments that its right-hand side counts. -/
theorem Eval.compoundAssignments_writeThrough (s : Settings) (r : Reference) (e : Node)
    {m : Machine}
    (hm : m.references.Valid) :
    ((withReference r (writeThrough s (evaluate s e))).after m).stats.compoundAssignments =
      ((evaluate s e).after m).stats.compoundAssignments := by
  have hagree := Machine.ApartBy.evaluate s e ((Machine.ApartBy.refl hm).acquireLeft r)
  calc ((withReference r (writeThrough s (evaluate s e))).after m).stats.compoundAssignments
    _ = ((writeThrough s (evaluate s e) (m.acquire r).1).after
          (m.acquire r).2).stats.compoundAssignments := by
        rw [after_withReference]
        rfl
    _ = ((evaluate s e).after (m.acquire r).2).stats.compoundAssignments := by
        rw [stats_writeThrough]
    _ = ((evaluate s e).after m).stats.compoundAssignments := by
        rw [hagree.after.stats]

/-! ### The guard -/

/-- A logical assignment operator is not the plain one. -/
theorem AssignOp.IsLogical.ne_assign {op : AssignOp} (hop : op.IsLogical) : op ≠ .assign := by
  rcases hop with rfl | rfl | rfl <;> decide

section Guard

variable {s : Settings} {op : AssignOp} {t : Place} {m n : Machine} {q₁ q₂ : Span}

/-- A logical assignment to a place that cannot be read fails for the cause for which reading
fails. -/
theorem logical_assignment_unreadable (hop : op.IsLogical)
    (hname : ∀ x, t = .name x → s.refuses x = false) (hm : m.Reachable) {f : Error}
    (hread : evaluate s (t.node q₁ q₂) m = .error f n) (outer inner span : Span) :
    ∃ g m', g.cause = f.cause ∧ (∃ k ≤ 1, m'.Ahead k m) ∧
      ∀ value, evaluate s (.assign op (t.target outer inner) value span) m = .error g m' := by
  have hpool := hm.references.valid
  rcases Place.reference_of_read_error hm.env.isLinked hread with ht | ⟨r, e, ht, hcause, he⟩
  · obtain ⟨c, hc⟩ := Place.undeclared s ht
    rw [(hc q₁ q₂).1] at hread
    cases hread
    refine ⟨_, m, ?_, ⟨0, Nat.zero_le 1, (Machine.ApartBy.refl hpool).ahead⟩,
      fun value => (hc outer inner).2 op value span⟩
    rw [Error.cause_locate, Error.cause_locate]
  · refine ⟨e.locate span, _, (Error.cause_locate _ _).trans hcause,
      ⟨1, le_rfl, Machine.ahead_release_acquire r hpool⟩, fun value => ?_⟩
    have hrun : withReference r (assignThrough s op (evaluate s value)) m =
        .error e ((m.acquire r).2.release (m.acquire r).1) := by
      rw [withReference_assignThrough s op value r hpool]
      refine withReference_of_error ?_
      rw [assignBy_logical s hop]
      exact bind_of_error (he _ rfl rfl)
    rw [Place.evaluate_assign hname ht hop.ne_assign, locate, hrun]

/-- A logical assignment that keeps the value of its place comes to that value. -/
theorem logical_assignment_kept (hop : op.IsLogical)
    (hname : ∀ x, t = .name x → s.refuses x = false) (hm : m.Reachable) {v : Value}
    (hread : evaluate s (t.node q₁ q₂) m = .ok v n) (hkeeps : op.Keeps v)
    (outer inner span : Span) :
    ∃ m', (∃ k ≤ 1, m'.Ahead k m) ∧
      ∀ value, evaluate s (.assign op (t.target outer inner) value span) m = .ok v m' := by
  have hpool := hm.references.valid
  obtain ⟨r, ht, hr⟩ := Place.reference_of_read_ok hm.env.isLinked hread
  have hslot : r.read (m.acquire r).2 = .ok v (m.acquire r).2 := hr _ rfl rfl
  refine ⟨_, ⟨1, le_rfl, Machine.ahead_release_acquire r hpool⟩, fun value => ?_⟩
  have hrun : withReference r (assignThrough s op (evaluate s value)) m =
      .ok v ((m.acquire r).2.release (m.acquire r).1) := by
    rw [withReference_assignThrough s op value r hpool]
    refine withReference_of_ok ?_
    rw [assignBy_logical s hop, bind_of_ok hslot, if_pos ((keeps_iff op v).2 hkeeps)]
    rfl
  rw [Place.evaluate_assign hname ht hop.ne_assign, locate, hrun]

/-- Any other logical assignment writes through the reference of the place. -/
theorem logical_assignment_written (hop : op.IsLogical)
    (hname : ∀ x, t = .name x → s.refuses x = false) (hm : m.Reachable) {v : Value}
    (hread : evaluate s (t.node q₁ q₂) m = .ok v n) (hkeeps : ¬op.Keeps v)
    (e : Node) (outer inner span : Span) :
    ∃ r, t.reference? m = some r ∧
      evaluate s (.assign op (t.target outer inner) e span) m =
        locate span (withReference r (writeThrough s (evaluate s e))) m := by
  have hpool := hm.references.valid
  obtain ⟨r, ht, hr⟩ := Place.reference_of_read_ok hm.env.isLinked hread
  have hslot : r.read (m.acquire r).2 = .ok v (m.acquire r).2 := hr _ rfl rfl
  have hplain : withReference r (assignThrough s .assign (evaluate s e)) m =
      withReference r (writeThrough s (evaluate s e)) m := rfl
  have hrun : withReference r (assignThrough s op (evaluate s e)) m =
      withReference r (writeThrough s (evaluate s e)) m := by
    rw [← hplain, withReference_assignThrough s op e r hpool,
      withReference_assignThrough s .assign e r hpool]
    refine withReference_congr ?_
    rw [assignBy_logical s hop, bind_of_ok hslot, if_neg (mt (keeps_iff op v).1 hkeeps)]
  refine ⟨r, ht, ?_⟩
  rw [Place.evaluate_assign hname ht hop.ne_assign, locate, locate, hrun]

end Guard

/-- Logical assignment is a guarded plain assignment. Let the target be a name that may be assigned
to, or a named property of a name, and the machine one whose bindings and pool arose by their
operations. If reading the target fails, the logical assignment fails for the same cause, and if the
operator keeps the value that was read, it comes to that value; either way the right-hand side does
not matter, and the machine is as before but for at most one reference that was counted and given
back. Otherwise, unless the right-hand side is a function literal without a name, the logical
assignment and the plain one come to the same value or fail for the same cause, leave the same
bindings, heap, trace, operator methods, references in progress and counters, but for at most one
reference more that was counted, and count the compound assignments that the right-hand side counts.
-/
theorem logical_assignment_guards (s : Settings) {op : AssignOp} (hop : op.IsLogical) {t : Place}
    (hname : ∀ x, t = .name x → s.refuses x = false) {e : Node}
    (he : e.isAnonymousFunction = false) {m : Machine} (hm : m.Reachable)
    (p₁ p₂ p₃ q₁ q₂ r₁ r₂ r₃ : Span) :
    (∀ f n, evaluate s (t.node q₁ q₂) m = .error f n →
        ∃ g m', g.cause = f.cause ∧ (∃ k ≤ 1, m'.Ahead k m) ∧
          ∀ value, evaluate s (.assign op (t.target p₁ p₂) value p₃) m = .error g m') ∧
      (∀ v n, evaluate s (t.node q₁ q₂) m = .ok v n → op.Keeps v →
        ∃ m', (∃ k ≤ 1, m'.Ahead k m) ∧
          ∀ value, evaluate s (.assign op (t.target p₁ p₂) value p₃) m = .ok v m') ∧
      ∀ v n, evaluate s (t.node q₁ q₂) m = .ok v n → ¬op.Keeps v →
        Agree Eq Error.SameCause (fun m' n' => ∃ k ≤ 1, m'.Ahead k n')
            (evaluate s (.assign op (t.target p₁ p₂) e p₃) m)
            (evaluate s (.assign .assign (t.target r₁ r₂) e r₃) m) ∧
          ((evaluate s (.assign op (t.target p₁ p₂) e p₃)).after m).stats.compoundAssignments =
            ((evaluate s e).after m).stats.compoundAssignments := by
  refine ⟨fun f n hread => ?_, fun v n hread hkeeps => ?_, fun v n hread hkeeps => ?_⟩
  · exact logical_assignment_unreadable hop hname hm hread p₁ p₂ p₃
  · exact logical_assignment_kept hop hname hm hread hkeeps p₁ p₂ p₃
  · obtain ⟨r, ht, hassign⟩ := logical_assignment_written hop hname hm hread hkeeps e p₁ p₂ p₃
    have hwrites := Place.writeThrough_agrees_assign hname hm.references.valid ht he r₁ r₂ r₃
    constructor
    · rw [hassign]
      exact Agree.locateLeft p₃ hwrites
    · rw [after_congr hassign, after_locate,
        compoundAssignments_writeThrough s r e hm.references.valid]

/-- A constant with a true value takes part in `x ||= e`, and refuses `x &&= "b"` as it refuses
`x = "b"`. -/
theorem logical_assignment_guards_constant :
    let s : Settings :=
      ⟨⟨fun _ _ => .answer .undefined, fun _ => false, fun _ => none, 0⟩, true, .elementwise⟩
    let m : Machine := .start ⟨.empty, []⟩ none (.define .empty "x" (.str "a") .immutable)
    let e : Node := .constant (.str "b")
    s.refuses "x" = false ∧ e.isAnonymousFunction = false ∧ m.Reachable ∧
      evaluate s (.identifier "x" ⟨0, 1⟩) m = .ok (.str "a") m ∧
      (∃ m', (∃ k ≤ 1, m'.Ahead k m) ∧
        ∀ value, evaluate s (.assign .or (.identifier "x") value ⟨0, 9⟩) m = .ok (.str "a") m') ∧
      ∃ m' n', evaluate s (.assign .and (.identifier "x") e ⟨0, 9⟩) m =
          .error ⟨.constantBinding "x", some ⟨0, 9⟩⟩ m' ∧
        evaluate s (.assign .assign (.identifier "x") e ⟨0, 7⟩) m =
          .error ⟨.constantBinding "x", some ⟨0, 7⟩⟩ n' ∧ ∃ k ≤ 1, m'.Ahead k n' := by
  intro s m e
  have hname : ∀ x, Place.name "x" = .name x → s.refuses x = false := by
    rintro x ⟨⟩
    rfl
  have hm : m.Reachable := Machine.Reachable.start _ none (.define "x" (.str "a") .immutable .empty)
  have hread : evaluate s (.identifier "x" ⟨0, 1⟩) m = .ok (.str "a") m := rfl
  have hlogical : AssignOp.IsLogical .and ∧ AssignOp.IsLogical .or := ⟨.inl rfl, .inr (.inl rfl)⟩
  have hor := logical_assignment_guards s hlogical.2 hname (e := e) rfl hm
    ⟨0, 1⟩ ⟨0, 1⟩ ⟨0, 9⟩ ⟨0, 1⟩ ⟨0, 1⟩ ⟨0, 1⟩ ⟨0, 1⟩ ⟨0, 7⟩
  have hand := logical_assignment_guards s hlogical.1 hname (e := e) rfl hm
    ⟨0, 1⟩ ⟨0, 1⟩ ⟨0, 9⟩ ⟨0, 1⟩ ⟨0, 1⟩ ⟨0, 1⟩ ⟨0, 1⟩ ⟨0, 7⟩
  refine ⟨rfl, rfl, hm, hread, hor.2.1 _ _ hread (.or rfl), _, _, rfl, rfl, ?_⟩
  have hkeeps : ¬AssignOp.Keeps .and (.str "a") := by
    rintro ⟨h⟩
    nomatch h
  exact (hand.2.2 _ _ hread hkeeps).1.after

/-- A logical assignment is not counted, but the compound assignment on the right of
`x ||= (y += "b")` is. -/
theorem logical_assignment_counts_nested :
    let s : Settings :=
      ⟨⟨fun _ _ => .answer .undefined, fun _ => false, fun _ => none, 0⟩, false, .elementwise⟩
    let m : Machine := .start ⟨.empty, []⟩ none
      (.define (.define .empty "x" (.str "") .mutable) "y" (.str "a") .mutable)
    let e : Node := .assign .add (.identifier "y") (.constant (.str "b")) ⟨7, 15⟩
    e.isAnonymousFunction = false ∧ m.Reachable ∧ s.refuses "x" = false ∧
      ((evaluate s (.assign .or (.identifier "x") e ⟨0, 16⟩)).after m).stats.compoundAssignments ≠
        m.stats.compoundAssignments := by
  intro s m e
  have hm : m.Reachable := Machine.Reachable.start _ none
    (.define "y" (.str "a") .mutable (.define "x" (.str "") .mutable .empty))
  have hcount : ((evaluate s (.assign .or (.identifier "x") e
      ⟨0, 16⟩)).after m).stats.compoundAssignments = 1 := rfl
  refine ⟨rfl, hm, rfl, ?_⟩
  rw [hcount]
  exact Nat.one_ne_zero

end ScriptOps
