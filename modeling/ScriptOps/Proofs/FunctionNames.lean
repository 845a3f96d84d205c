import ScriptOps.Proofs.FunctionLiterals

/-!
# The names of functions

A function gets its name from its literal, or from the name that the literal is assigned to when it
is the right-hand side of a plain assignment. `made` tells, for a tree and a machine, which literals
of functions are evaluated and which functions they make. A run leaves the functions that were there
alone, the functions of its literals end with the names that these give them, and no other function
comes up but by the host.
-/

namespace ScriptOps

open Eval

/-! ### The literals that a run evaluates -/

/-- What the right-hand side of an assignment to a reference makes. A logical assignment that keeps
the value of its target does not evaluate it. -/
def Eval.madeThrough (op : AssignOp) (r : Reference) (value : Machine → List MadeFunction)
    (m : Machine) : List MadeFunction :=
  let (id, m) := m.acquire r
  if op = .assign then value m
  else madeAfter (getValue id) (fun current m => if keeps op current then [] else value m) m

mutual

/-- The literals of functions that the evaluation of a tree evaluates, in order. -/
def made (s : Settings) : Node → Machine → List MadeFunction
  | .constant _ => fun _ => []
  | .identifier _ _ => fun _ => []
  | .member p => madeByParts s p
  | .call callee args _ => fun m =>
    made s callee m ++ madeAfter (evaluateCallee s callee) (fun _ => madeByAll s args) m
  | .function name? kind => fun m =>
    [⟨(m.world.heap.createFunction (name?.getD "") kind).1, name?, kind, none⟩]
  | .array elements => madeByAll s elements
  | .object entries =>
    madeAfter (lift (Action.create .ordinary)) fun id => madeByEntries s id entries
  | .binary _ left right _ => fun m =>
    made s left m ++ madeAfter (evaluate s left) (fun _ => made s right) m
  | .assign op (.identifier name) value _ =>
    madeAfter (checkReserved s name) fun _ =>
      if op = .assign then
        if value.isAnonymousFunction then fun m => (made s value m).map (·.assignedTo name)
        else made s value
      else madeAfter (nameReference name) fun r => madeThrough op r (made s value)
  | .assign op (.member p) value _ => fun m =>
    madeByParts s p m ++ madeAfter (evaluateParts s p)
      (fun (base, key) => madeThrough op (.property base key) (made s value)) m
  | .assign _ (.pattern p) value _ => fun m =>
    made s value m ++ madeAfter (evaluate s value) (madeByPattern s p) m
  | .assign _ (.invalid target) _ _ => made s target

/-- Those of trees in order. -/
def madeByAll (s : Settings) : List Node → Machine → List MadeFunction
  | [] => fun _ => []
  | n :: rest => fun m => made s n m ++ madeAfter (evaluate s n) (fun _ => madeByAll s rest) m

/-- Those of the entries of an object literal. -/
def madeByEntries (s : Settings) (id : ObjectId) :
    List (String × Node) → Machine → List MadeFunction
  | [] => fun _ => []
  | (key, n) :: rest => fun m =>
    made s n m ++ madeAfter (evaluate s n) (fun v =>
      madeAfter (lift (Action.assign id key v)) fun _ => madeByEntries s id rest) m

/-- Those of the object of a member and its key. -/
def madeByParts (s : Settings) : Member → Machine → List MadeFunction
  | .mk object (.named _) _ => made s object
  | .mk object (.computed key) _ => fun m =>
    made s object m ++ madeAfter (evaluate s object) (fun _ => made s key) m

/-- Those of an element of a pattern. -/
def madeByTarget (s : Settings) (v : Value) : Target → Machine → List MadeFunction
  | .identifier _ => fun _ => []
  | .member p => madeByParts s p
  | .pattern p => madeByPattern s p v
  | .invalid n => made s n

/-- Those of a pattern. -/
def madeByPattern (s : Settings) : Pattern → Value → Machine → List MadeFunction
  | .array targets, v =>
    match s.destructuring with
    | .elementwise =>
      madeAfter (lift (elementSource v)) fun source => madeByElements s source 0 targets
    | .shared share =>
      madeAfter (lift (Action.observe (.handed (.array targets) v))) fun _ =>
        madeByShares s share v 0 targets
  | .object entries, v =>
    match s.destructuring with
    | .elementwise =>
      madeAfter (lift (checkRecord (entries.map (·.1)) v)) fun _ => madeByProperties s v entries
    | .shared share =>
      madeAfter (lift (Action.observe (.handed (.object entries) v))) fun _ =>
        madeByShareEntries s share v entries

/-- Those of the targets that take the elements of a source from an index on. -/
def madeByElements (s : Settings) (source : ElementSource) (index : Nat) :
    List (Option Target) → Machine → List MadeFunction
  | [] => fun _ => []
  | none :: rest => madeByElements s source (index + 1) rest
  | some target :: rest => fun m =>
    let v := source.get m.world.heap index
    madeByTarget s v target m ++ madeAfter (assignTarget s v target)
      (fun _ => madeByElements s source (index + 1) rest) m

/-- Those of the targets that take the properties of a value. -/
def madeByProperties (s : Settings) (source : Value) :
    List (String × Target) → Machine → List MadeFunction
  | [] => fun _ => []
  | (key, target) :: rest =>
    madeAfter (lift (getProperty source key)) fun v m =>
      madeByTarget s v target m ++ madeAfter (assignTarget s v target)
        (fun _ => madeByProperties s source rest) m

/-- Those of the targets that take what a collaborator gives to the places from an index on. -/
def madeByShares (s : Settings) (share : Share) (v : Value) (index : Nat) :
    List (Option Target) → Machine → List MadeFunction
  | [] => fun _ => []
  | none :: rest => madeByShares s share v (index + 1) rest
  | some target :: rest => fun m =>
    let part? := share m.world.heap v (.position index)
    (part?.elim [] fun part => madeByTarget s part target m) ++
      madeAfter (part?.forM fun part => assignTarget s part target)
        (fun _ => madeByShares s share v (index + 1) rest) m

/-- Those of the targets that take what a collaborator gives to the places with keys. -/
def madeByShareEntries (s : Settings) (share : Share) (v : Value) :
    List (String × Target) → Machine → List MadeFunction
  | [] => fun _ => []
  | (key, target) :: rest => fun m =>
    let part? := share m.world.heap v (.key key)
    (part?.elim [] fun part => madeByTarget s part target m) ++
      madeAfter (part?.forM fun part => assignTarget s part target)
        (fun _ => madeByShareEntries s share v rest) m

end

/-! ### Evaluations that account for their functions -/

/-- The evaluation makes the given functions of literals, depending on the machine. -/
def Eval.Accounts (host : Host) {α : Type} (x : Eval α) (made : Machine → List MadeFunction) :
    Prop :=
  ∀ m, Heap.Accounts host (made m) m.world.heap (leaves x m).world.heap

/-- The evaluation makes none. -/
def Eval.IsQuiet (host : Host) ⦃α : Type⦄ (x : Eval α) : Prop :=
  Eval.Accounts host x fun _ => []

namespace Eval.Accounts

variable {host : Host} {α β : Type} {x : Eval α} {f : α → Eval β}
  {made : Machine → List MadeFunction} {rest : α → Machine → List MadeFunction}

/-- A sequence makes what its first part makes, and then what the rest makes. -/
theorem bind (hx : Accounts host x made) (hf : ∀ a, Accounts host (f a) (rest a)) :
    Accounts host (x >>= f) fun m => made m ++ madeAfter x rest m :=
  fun m => Heap.Accounts.sequence (fun m : Machine => m.world.heap) (hx m) hf

/-- What makes nothing itself may come before. -/
theorem after (hx : IsQuiet host x) (hf : ∀ a, Accounts host (f a) (rest a)) :
    Accounts host (x >>= f) (madeAfter x rest) :=
  hx.bind hf

/-- What is made for the value that there may be. -/
theorem forM (a? : Option α) {f : α → Eval Unit} {made : α → Machine → List MadeFunction}
    (hf : ∀ a, Accounts host (f a) (made a)) :
    Accounts host (a?.forM f) fun m => a?.elim [] fun a => made a m := by
  cases a? with
  | none => exact fun m => .refl _
  | some a => exact hf a

/-- It may come afterwards. -/
theorem before (hx : Accounts host x made) (hf : ∀ a, IsQuiet host (f a)) :
    Accounts host (x >>= f) made := by
  intro m
  have hboth := hx.bind hf m
  unfold madeAfter at hboth
  cases hrun : x m <;> simpa [hrun] using hboth

/-- Giving errors a place makes nothing. -/
theorem locate (span : Span) (hx : Accounts host x made) : Accounts host (locate span x) made := by
  intro m
  rw [leaves_locate]
  exact hx m

/-- With a reference in the pool, what is made is what the body makes. -/
theorem withReference (r : Reference) {body : RefId → Eval α}
    {made : RefId → Machine → List MadeFunction}
    (hbody : ∀ id, Accounts host (body id) (made id)) :
    Accounts host (withReference r body) fun m => made (m.acquire r).1 (m.acquire r).2 := by
  intro m
  rw [world_leaves_withReference]
  exact hbody _ _

end Eval.Accounts

/-! ### Evaluations that make nothing themselves -/

/-- Writing a name leaves the world alone. -/
theorem Eval.IsWorldless.writeName (s : Settings) (scope? : Option ScopeId) (name : String)
    (v : Value) : IsWorldless (writeName s scope? name v) := by
  intro m
  cases scope? with
  | some id => exact IsWorldless.commit s name _ m
  | none =>
    change (leaves (if s.strict then fail (.undeclared name)
      else Eval.commit s name (m.env.defineOrAssign name v)) m).world = m.world
    split
    · rfl
    · exact IsWorldless.commit s name _ m

namespace Eval.IsQuiet

variable {host : Host} {α β : Type}

/-- An evaluation that leaves the world alone makes nothing. -/
theorem of_worldless {x : Eval α} (hx : x.IsWorldless) : IsQuiet host x := by
  intro m
  rw [hx m]
  exact .refl _

theorem pure (a : α) : IsQuiet host (pure a) :=
  of_worldless fun _ => rfl

/-- An effect on the world that makes nothing still makes nothing within the machine. -/
theorem lift {x : Action α} (hx : Action.IsQuiet host x) : IsQuiet host (lift x) := by
  intro m
  rw [world_leaves_lift]
  exact hx m.world

/-- A sequence makes nothing if its parts do not. -/
theorem bind {x : Eval α} {f : α → Eval β} (hx : IsQuiet host x) (hf : ∀ a, IsQuiet host (f a)) :
    IsQuiet host (x >>= f) :=
  Eval.Accounts.before hx hf

/-- Operators and reads make nothing. -/
theorem closed (s : Settings) : Eval.Closed s (Action.IsQuiet s.host) (IsQuiet s.host) where
  steps := Action.IsQuiet.literalFree s.host
  pure := pure
  bind := bind
  look hf := bind (of_worldless fun _ => rfl) hf
  fail _ := of_worldless fun _ => rfl
  lift := lift
  lookupMethod op l r := of_worldless (.lookupMethod op l r)
  countDispatch := of_worldless fun _ => rfl
  countCompound := of_worldless fun _ => rfl

variable {s : Settings}

/-- Reading through a reference makes nothing. -/
theorem getValue (id : RefId) : IsQuiet s.host (getValue id) := by
  rw [getValue_eq]
  exact bind (of_worldless (.pooled id)) (closed s).read

/-- Neither does writing through one. -/
theorem putValue (id : RefId) (v : Value) : IsQuiet s.host (putValue s id v) := by
  rw [putValue_eq]
  refine bind (of_worldless (.pooled id)) fun r => ?_
  cases r with
  | binding name scope => exact of_worldless (.writeName s (some scope) name v)
  | unresolvable name => exact of_worldless (.writeName s none name v)
  | property base key => exact lift ((closed s).steps.putProperty s.strict base key v)

/-- Neither does looking a name up. -/
theorem nameReference (name : String) : IsQuiet host (nameReference name) := by
  refine of_worldless fun m => ?_
  rw [leaves, nameReference_eq]

/-- Neither does writing an element of a pattern to a name. -/
theorem assignElement (name : String) (v : Value) : IsQuiet s.host (assignElement s name v) :=
  bind (of_worldless (.checkReserved s name)) fun _ => bind (nameReference name) fun r =>
    Eval.Accounts.withReference r fun id => putValue id v

end Eval.IsQuiet

/-! ### Assignments -/

/-- An anonymous function is a literal without a name. -/
theorem Node.eq_function_of_isAnonymousFunction {n : Node} (hn : n.isAnonymousFunction = true) :
    ∃ kind, n = .function none kind := by
  unfold isAnonymousFunction at hn
  split at hn
  · exact ⟨_, rfl⟩
  · cases hn

namespace Eval.Accounts

variable {s : Settings} {value : Eval Value} {made : Machine → List MadeFunction}

/-- What is done with the slot makes what the right-hand side makes, if it is evaluated. -/
theorem assignBody (op : AssignOp) (id : RefId) (hvalue : Accounts s.host value made) :
    Accounts s.host (assignThrough s op value id) fun m =>
      if op = .assign then made m
      else madeAfter (getValue id)
        (fun current m => if keeps op current then [] else made m) m := by
  have hwrite : Accounts s.host (writeThrough s value id) made :=
    hvalue.before fun v => (IsQuiet.putValue id v).bind fun _ => IsQuiet.pure v
  have hread := IsQuiet.getValue (s := s) id
  unfold Eval.assignThrough
  cases hop : op.binaryOp? with
  | some binary =>
    have hassign : op ≠ .assign := by
      rintro rfl
      cases hop
    -- arithmetic never keeps the current value, so the value is evaluated in any case
    have hkeeps (current : Value) : keeps op current = false := by
      cases op <;> first | rfl | cases hop
    simp only [if_neg hassign, hkeeps, Bool.false_eq_true, if_false]
    refine after hread fun current => hvalue.before fun v => ?_
    exact IsQuiet.bind (IsQuiet.closed s).countCompound fun _ =>
      ((IsQuiet.closed s).operate binary current v).bind fun result =>
        (IsQuiet.putValue id result).bind fun _ => IsQuiet.pure result
  | none =>
    dsimp only
    split
    · exact hwrite
    · refine after hread fun current => ?_
      split
      · exact IsQuiet.pure current
      · exact hwrite

/-- An assignment through a reference makes what its right-hand side makes. -/
theorem through (op : AssignOp) (r : Reference) (hvalue : Accounts s.host value made) :
    Accounts s.host (Eval.withReference r (assignThrough s op value)) (madeThrough op r made) :=
  withReference r fun id => assignBody op id hvalue

/-- So does an assignment to a name, after the look for reserved names. -/
theorem toName (name : String) (hvalue : Accounts s.host value made) :
    Accounts s.host (assignName s name false value)
      (madeAfter (checkReserved s name) fun _ => made) := by
  refine after (.of_worldless (.checkReserved s name)) fun _ => ?_
  have hrest (scope? : Option ScopeId) := hvalue.before fun v =>
    IsQuiet.bind (.of_worldless (.writeName s scope? name v)) fun _ => IsQuiet.pure v
  exact fun m => hrest (m.env.resolve? name) m

/-- A literal makes a function with its name. -/
theorem literal (name? : Option String) (kind : FunctionKind) :
    Accounts s.host (lift (Action.createFunction (name?.getD "") kind))
      (ScriptOps.made s (.function name? kind)) := by
  intro m
  have hmade := Heap.Accounts.createFunction s.host m.world.heap
    ⟨(m.world.heap.createFunction (name?.getD "") kind).1, name?, kind, none⟩
  have hname : (name? <|> none).getD "" = name?.getD "" := by
    cases name? <;> rfl
  rw [MadeFunction.name, hname] at hmade
  exact hmade rfl

/-- A literal without a name that is assigned to a name gets it. -/
theorem literalToName (name : String) (kind : FunctionKind) :
    Accounts s.host (assignName s name true (evaluate s (.function none kind)))
      (madeAfter (checkReserved s name) fun _ m =>
        [⟨(m.world.heap.createFunction "" kind).1, none, kind, some name⟩]) := by
  refine after (.of_worldless (.checkReserved s name)) fun _ m => ?_
  have hrest (scope? : Option ScopeId) (v : Value) : IsQuiet s.host (do
      writeName s scope? name v
      return v) :=
    IsQuiet.bind (.of_worldless (.writeName s scope? name v)) fun _ => IsQuiet.pure v
  -- the function is named before anything else is done with it
  have hnamed := Heap.nameFunction_createFunction m.world.heap name kind
  have hmade : Heap.Accounts s.host _ m.world.heap (m.world.heap.createFunction name kind).2 :=
    .createFunction _ _ ⟨_, none, kind, some name⟩ (Heap.id_createFunction _ "" name kind)
  rw [← hnamed] at hmade
  exact hmade.trans (hrest (m.env.resolve? name) _ { m with world.heap := _ })

/-- What is called makes what it makes as a tree: a member is read alike, -/
theorem memberCallee {p : Member}
    (hp : Accounts s.host (evaluateParts s p) (ScriptOps.madeByParts s p)) :
    Accounts s.host (evaluateCallee s (.member p)) (ScriptOps.madeByParts s p) := by
  have hread (base : Value) (key : String) :=
    locate p.span (IsQuiet.lift ((IsQuiet.closed s).steps.getProperty base key))
  exact hp.before fun _ => IsQuiet.bind (hread _ _) fun _ => IsQuiet.pure _

/-- and anything else is evaluated. -/
theorem callee {n : Node} (hn : ∀ p, n ≠ .member p)
    (hmade : Accounts s.host (evaluate s n) (ScriptOps.made s n)) :
    Accounts s.host (evaluateCallee s n) (ScriptOps.made s n) := by
  rw [evaluateCallee_of_ne_member s hn]
  exact hmade.before fun _ => IsQuiet.pure _

mutual

/-- A run makes the functions of the literals that it evaluates, and no others. -/
theorem evaluate (s : Settings) :
    (n : Node) → Accounts s.host (ScriptOps.evaluate s n) (ScriptOps.made s n)
  | .constant v => by
    rw [ScriptOps.evaluate]
    exact IsQuiet.pure v
  | .identifier name span => by
    rw [ScriptOps.evaluate]
    refine (IsQuiet.closed s).look fun m => ?_
    split
    · exact IsQuiet.pure _
    · exact locate span ((IsQuiet.closed s).fail _)
  | .member p => by
    rw [ScriptOps.evaluate]
    exact (evaluateParts s p).before fun _ =>
      locate _ (IsQuiet.lift ((IsQuiet.closed s).steps.getProperty _ _))
  | .call callee args span => by
    rw [evaluate_call]
    refine bind ?_ fun _ => (evaluateAll s args).before fun _ =>
      locate span (IsQuiet.lift ((IsQuiet.closed s).steps.callValue _ _ _))
    cases callee with
    | member p => exact memberCallee (evaluateParts s p)
    | _ => exact Accounts.callee (by simp) (evaluate s _)
  | .function name? kind => by
    rw [ScriptOps.evaluate]
    exact (literal name? kind).before fun _ => IsQuiet.pure _
  | .array elements => by
    rw [ScriptOps.evaluate]
    exact (evaluateAll s elements).before fun _ =>
      IsQuiet.bind (.lift (.create nofun)) fun _ => IsQuiet.pure _
  | .object entries => by
    rw [ScriptOps.evaluate]
    exact after (.lift (.create nofun)) fun id => (evaluateEntries s id entries).before fun _ =>
      IsQuiet.pure _
  | .binary op left right span => by
    rw [ScriptOps.evaluate]
    refine (evaluate s left).bind fun l => (evaluate s right).before fun r => ?_
    exact IsQuiet.bind (.of_worldless fun _ => rfl) fun _ =>
      locate span ((IsQuiet.closed s).operate op l r)
  | .assign op (.identifier name) value span => by
    have hvalue := evaluate s value
    rw [ScriptOps.evaluate]
    rw [ScriptOps.made]
    -- only a plain assignment gives its name to the function
    by_cases hop : op = .assign
    · rw [if_pos hop]
      simp only [if_pos hop]
      refine locate span ?_
      cases hfunction : value.isAnonymousFunction with
      | true =>
        obtain ⟨kind, rfl⟩ := Node.eq_function_of_isAnonymousFunction hfunction
        exact literalToName name kind
      | false => exact toName name hvalue
    · rw [if_neg hop]
      simp only [if_neg hop]
      exact after (.of_worldless (.checkReserved s name)) fun _ =>
        after (IsQuiet.nameReference name) fun r => locate span (through op r hvalue)
  | .assign op (.member p) value span => by
    rw [ScriptOps.evaluate]
    exact (evaluateParts s p).bind fun _ => locate span (through op _ (evaluate s value))
  | .assign op (.pattern p) value span => by
    rw [ScriptOps.evaluate]
    exact (evaluate s value).bind fun v => (assignPattern s p v).before fun _ =>
      IsQuiet.pure v
  | .assign op (.invalid n) value span => by
    rw [ScriptOps.evaluate]
    exact (evaluate s n).before fun _ => locate span ((IsQuiet.closed s).fail _)

/-- Lists of trees, from left to right. -/
theorem evaluateAll (s : Settings) :
    (ns : List Node) → Accounts s.host (ScriptOps.evaluateAll s ns) (ScriptOps.madeByAll s ns)
  | [] => by
    rw [ScriptOps.evaluateAll]
    exact IsQuiet.pure []
  | n :: rest => by
    rw [ScriptOps.evaluateAll]
    exact (evaluate s n).bind fun v => (evaluateAll s rest).before fun _ =>
      IsQuiet.pure _

/-- The entries of an object literal. -/
theorem evaluateEntries (s : Settings) (id : ObjectId) : (entries : List (String × Node)) →
    Accounts s.host (ScriptOps.evaluateEntries s id entries) (ScriptOps.madeByEntries s id entries)
  | [] => by
    rw [ScriptOps.evaluateEntries]
    exact IsQuiet.pure ()
  | (key, n) :: rest => by
    rw [ScriptOps.evaluateEntries]
    exact (evaluate s n).bind fun v =>
      after (.lift (Action.IsQuiet.assign id key v)) fun _ => evaluateEntries s id rest

/-- The object and the key of a member. -/
theorem evaluateParts (s : Settings) :
    (p : Member) → Accounts s.host (ScriptOps.evaluateParts s p) (ScriptOps.madeByParts s p)
  | .mk object (.named name) span => by
    rw [ScriptOps.evaluateParts]
    exact (evaluate s object).before fun base => IsQuiet.pure (base, name)
  | .mk object (.computed key) span => by
    rw [ScriptOps.evaluateParts]
    refine (evaluate s object).bind fun base => (evaluate s key).before fun key => ?_
    have hkey := IsQuiet.lift ((IsQuiet.closed s).steps.computedKey base key)
    exact IsQuiet.bind (locate span hkey) fun _ => IsQuiet.pure _

/-- The targets that are elements of patterns. -/
theorem assignTarget (s : Settings) (v : Value) : (target : Target) →
    Accounts s.host (ScriptOps.assignTarget s v target) (ScriptOps.madeByTarget s v target)
  | .identifier name => by
    rw [ScriptOps.assignTarget]
    exact IsQuiet.assignElement name v
  | .member p => by
    rw [ScriptOps.assignTarget]
    exact (evaluateParts s p).before fun _ =>
      locate _ (IsQuiet.lift ((IsQuiet.closed s).steps.putProperty s.strict _ _ v))
  | .pattern p => by
    rw [ScriptOps.assignTarget]
    exact assignPattern s p v
  | .invalid n => by
    rw [ScriptOps.assignTarget]
    exact (evaluate s n).before fun _ => (IsQuiet.closed s).fail _

/-- Patterns, in each way of taking a value apart. -/
theorem assignPattern (s : Settings) : (p : Pattern) → (v : Value) →
    Accounts s.host (ScriptOps.assignPattern s p v) (ScriptOps.madeByPattern s p v)
  | .array targets, v => by
    have hhanded : IsQuiet s.host (lift (Action.observe (.handed (.array targets) v))) :=
      .lift fun _ => .refl _
    rw [ScriptOps.assignPattern, ScriptOps.madeByPattern]
    cases hs : s.destructuring with
    | elementwise =>
      exact after (.lift ((IsQuiet.closed s).steps.elementSource v)) fun source =>
        assignElements s source 0 targets
    | shared share => exact after hhanded fun _ => assignShares s share v 0 targets
  | .object entries, v => by
    have hhanded : IsQuiet s.host (lift (Action.observe (.handed (.object entries) v))) :=
      .lift fun _ => .refl _
    rw [ScriptOps.assignPattern, ScriptOps.madeByPattern]
    cases hs : s.destructuring with
    | elementwise =>
      exact after (.lift ((IsQuiet.closed s).steps.checkRecord _ v)) fun _ =>
        assignProperties s v entries
    | shared share => exact after hhanded fun _ => assignShareEntries s share v entries

/-- The elements of a source. -/
theorem assignElements (s : Settings) (source : ElementSource) (index : Nat) :
    (targets : List (Option Target)) → Accounts s.host
      (ScriptOps.assignElements s source index targets)
      (ScriptOps.madeByElements s source index targets)
  | [] => by
    rw [ScriptOps.assignElements]
    exact IsQuiet.pure ()
  | none :: rest => by
    rw [ScriptOps.assignElements]
    exact assignElements s source (index + 1) rest
  | some target :: rest => by
    rw [ScriptOps.assignElements]
    intro m
    have hboth (v : Value) := (assignTarget s v target).bind fun _ =>
      assignElements s source (index + 1) rest
    exact hboth (source.get m.world.heap index) m

/-- The properties of a value. -/
theorem assignProperties (s : Settings) (source : Value) : (entries : List (String × Target)) →
    Accounts s.host (ScriptOps.assignProperties s source entries)
      (ScriptOps.madeByProperties s source entries)
  | [] => by
    rw [ScriptOps.assignProperties]
    exact IsQuiet.pure ()
  | (key, target) :: rest => by
    rw [ScriptOps.assignProperties]
    exact after (.lift ((IsQuiet.closed s).steps.getProperty source key)) fun v =>
      (assignTarget s v target).bind fun _ => assignProperties s source rest

/-- What a collaborator gives to the places from an index on. -/
theorem assignShares (s : Settings) (share : Share) (v : Value) (index : Nat) :
    (targets : List (Option Target)) → Accounts s.host
      (ScriptOps.assignShares s share v index targets)
      (ScriptOps.madeByShares s share v index targets)
  | [] => by
    rw [ScriptOps.assignShares]
    exact IsQuiet.pure ()
  | none :: rest => by
    rw [ScriptOps.assignShares]
    exact assignShares s share v (index + 1) rest
  | some target :: rest => by
    rw [ScriptOps.assignShares]
    intro m
    have hboth (part? : Option Value) :=
      (forM part? fun part => assignTarget s part target).bind fun _ =>
        assignShares s share v (index + 1) rest
    exact hboth (share m.world.heap v (.position index)) m

/-- What a collaborator gives to the places with keys. -/
theorem assignShareEntries (s : Settings) (share : Share) (v : Value) :
    (entries : List (String × Target)) → Accounts s.host
      (ScriptOps.assignShareEntries s share v entries)
      (ScriptOps.madeByShareEntries s share v entries)
  | [] => by
    rw [ScriptOps.assignShareEntries]
    exact IsQuiet.pure ()
  | (key, target) :: rest => by
    rw [ScriptOps.assignShareEntries]
    intro m
    have hboth (part? : Option Value) :=
      (forM part? fun part => assignTarget s part target).bind fun _ =>
        assignShareEntries s share v rest
    exact hboth (share m.world.heap v (.key key)) m

end

end Eval.Accounts

/-! ### The names of functions after a run -/

/-- A run, whether it ends with a value or with an error, leaves the functions that were there as
they are, and each literal of a function that it evaluates makes one new function. That has the name
in the literal, or the name that the literal is assigned to directly, or none. There are no other
functions afterwards but those that the host created, as it created them. Hosts are assumed to take
the steps of a `Reaction` alone, among which there is no naming of functions. -/
theorem evaluate_function_names (s : Settings) (n : Node) (m : Machine) :
    let h := m.world.heap
    let h' := (leaves (evaluate s n) m).world.heap
    (∀ id f, h.kind id = .function f → h'.kind id = .function f) ∧
      (∀ c ∈ made s n m, h.size ≤ c.id.index ∧
        h'.kind c.id = .function ⟨(c.name? <|> c.target?).getD "", c.kind, none⟩) ∧
      ((made s n m).map (·.id)).Nodup ∧
      ∀ id f, h'.kind id = .function f →
        h.kind id = .function f ∨ (∃ c ∈ made s n m, c.id = id) ∨ s.host.Creates f := by
  have haccounts := Eval.Accounts.evaluate s n m
  refine ⟨fun id f hf => haccounts.kept hf, fun c hc => ?_, haccounts.distinct, fun id f hf => ?_⟩
  · exact haccounts.named c hc
  · exact haccounts.complete hf

example :
    let host : Host := ⟨fun _ _ => .answer .undefined, fun _ => false, fun _ => none, 0⟩
    let n : Node := .assign .assign (.identifier "g")
      (.array [.function none .arrow,
        .assign .assign (.identifier "f") (.function none .function) ⟨3, 4⟩]) ⟨0, 5⟩
    let m := Machine.start ⟨.empty, []⟩ none .empty
    (made ⟨host, false, .elementwise⟩ n m).map (fun c => (c.id.index, c.name)) =
      [(0, ""), (2, "f")] := by
  decide

end ScriptOps
