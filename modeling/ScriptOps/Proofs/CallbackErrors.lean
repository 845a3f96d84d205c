import ScriptOps.Proofs.RunProperties

/-!
# Errors of callbacks end the run

`Eval.Asks` tells the requests of an evaluation: the callbacks that it asks for, each with the
machine in which it does. A request that fails is the end of the evaluation. Nothing is asked for or
written after it, and the error is that of the callback, at a place perhaps.

That no request is left out is told from the trace. It grows at its end, and each request that was
added is one of those that `Eval.Asks` tells.

Hosts take the steps of a `Reaction` while they answer, so this is a statement about hosts whose
callbacks ask for no further callbacks.
-/

namespace ScriptOps

open Eval

/-! ### Requests -/

/-- The effect comes to ask for a callback in a world: at once, within what it begins with, or after
what it begins with came to a value. -/
inductive Action.Asks (host : Host) (c : Callback) :
    {α : Type} → Action α → World → World → Prop where
  | ask (w : World) : Asks host c (host.ask c) w w
  | first {α β : Type} {x : Action α} {f : α → Action β} {w w₁ : World} :
    Asks host c x w w₁ → Asks host c (x >>= f) w w₁
  | next {α β : Type} {x : Action α} {f : α → Action β} {a : α} {w w' w₁ : World} :
    x w = .ok a w' → Asks host c (f a) w' w₁ → Asks host c (x >>= f) w w₁

/-- The evaluation comes to ask for a callback in a machine. -/
inductive Eval.Asks (host : Host) (c : Callback) :
    {α : Type} → Eval α → Machine → Machine → Prop where
  | lift {α : Type} {x : Action α} {m : Machine} {w : World} :
    Action.Asks host c x m.world w → Asks host c (lift x) m { m with world := w }
  | first {α β : Type} {x : Eval α} {f : α → Eval β} {m m₁ : Machine} :
    Asks host c x m m₁ → Asks host c (x >>= f) m m₁
  | next {α β : Type} {x : Eval α} {f : α → Eval β} {a : α} {m m' m₁ : Machine} :
    x m = .ok a m' → Asks host c (f a) m' m₁ → Asks host c (x >>= f) m m₁
  | locate {α : Type} {x : Eval α} {m m₁ : Machine} (span : Span) :
    Asks host c x m m₁ → Asks host c (locate span x) m m₁
  | withReference {α : Type} {r : Reference} {x : RefId → Eval α} {m m₁ : Machine} :
    Asks host c (x (m.acquire r).1) (m.acquire r).2 m₁ → Asks host c (withReference r x) m m₁

/-! ### A request that fails -/

/-- The error of a callback is the error of the effect that asked for it, and the world is as the
callback left it. -/
theorem Action.Asks.fails {host : Host} {c : Callback} {α : Type} {x : Action α} {w w₁ w' : World}
    {e : Error} (h : Action.Asks host c x w w₁) (hfails : host.ask c w₁ = .error e w') :
    x w = .error e w' := by
  induction h with
  | ask w => exact hfails
  | first _ ih => exact bind_of_error (ih hfails)
  | next hok _ ih => exact (bind_of_ok hok).trans (ih hfails)

/-- The same error but for its place, in a machine that is the one of the request but for the pool
and what the callback did to the world. The cause is the very one: its category and message, the
value that was thrown, or the identity of the failure in the host. -/
structure Machine.FailsAfter (m : Machine) (e : Error) (w : World) (e' : Error) (m' : Machine) :
    Prop where
  cause : e'.cause = e.cause
  world : m'.world = w
  env : m'.env = m.env
  resolver : m'.resolver? = m.resolver?
  stats : m'.stats = m.stats

/-- The error of a callback ends the evaluation that asked for it. -/
theorem Eval.Asks.fails {host : Host} {c : Callback} {α : Type} {x : Eval α} {m m₁ : Machine}
    {e : Error} {w : World} (h : Asks host c x m m₁) (hfails : host.ask c m₁.world = .error e w) :
    ∃ e' m', x m = .error e' m' ∧ m₁.FailsAfter e w e' m' := by
  induction h with
  | @lift α x m w₁ hasks =>
    refine ⟨e, { m with world := w }, ?_, rfl, rfl, rfl, rfl, rfl⟩
    rw [Eval.lift, hasks.fails hfails]
  | first _ ih =>
    obtain ⟨e', m', herror, hafter⟩ := ih hfails
    exact ⟨e', m', bind_of_error herror, hafter⟩
  | next hok _ ih =>
    obtain ⟨e', m', herror, hafter⟩ := ih hfails
    exact ⟨e', m', (bind_of_ok hok).trans herror, hafter⟩
  | locate span _ ih =>
    obtain ⟨e', m', herror, hafter⟩ := ih hfails
    refine ⟨e'.locate span, m', ?_, { hafter with cause := ?_ }⟩
    · rw [Eval.locate, herror]
    · rw [Error.cause_locate, hafter.cause]
  | @withReference α r x m m₁ _ ih =>
    obtain ⟨e', m', herror, hafter⟩ := ih hfails
    refine ⟨e', m'.release (m.acquire r).1, ?_, { hafter with }⟩
    unfold Eval.withReference
    generalize m.acquire r = acquired at herror ⊢
    obtain ⟨id, m₂⟩ := acquired
    dsimp only at herror ⊢
    rw [herror]

/-! ### Requests in the trace -/

/-- The trace grew, and each request that was added is accounted for, by its callback and the trace
before it. -/
structure Trace.Accounts (asked : Callback → List Event → Prop) (before after : List Event) :
    Prop where
  suffix : before <:+ after
  invoked : ∀ c older, .invoked c :: older <:+ after → before <:+ older → asked c older

namespace Trace.Accounts

variable {asked asked' : Callback → List Event → Prop} {t t₁ t₂ : List Event}

/-- What accounts for requests still does when more requests are admitted. -/
theorem mono (h : Accounts asked t t₁) (hasked : ∀ c older, asked c older → asked' c older) :
    Accounts asked' t t₁ where
  suffix := h.suffix
  invoked c older hc hold := hasked c older (h.invoked c older hc hold)

/-- A trace that stays the same has nothing to account for. -/
theorem refl (asked : Callback → List Event → Prop) (t : List Event) : Accounts asked t t where
  suffix := List.suffix_rfl
  invoked c older hc hold := by
    have hlonger := hc.length_le
    have hshorter := hold.length_le
    rw [List.length_cons] at hlonger
    omega

/-- What is accounted for in two parts. -/
theorem trans (h₁ : Accounts asked t t₁) (h₂ : Accounts asked t₁ t₂) : Accounts asked t t₂ where
  suffix := h₁.suffix.trans h₂.suffix
  invoked c older hc hold := by
    rcases List.suffix_or_suffix_of_suffix hc h₂.suffix with hearly | hlate
    · exact h₁.invoked c older hearly hold
    · rcases List.suffix_cons_iff.1 hlate with hsame | hlate
      · exact h₁.invoked c older (hsame ▸ List.suffix_rfl) hold
      · exact h₂.invoked c older hc hlate

/-- An event that is no request. -/
theorem observed {event : Event} (hevent : ∀ c, event ≠ .invoked c) :
    Accounts asked t (event :: t) where
  suffix := List.suffix_cons event t
  invoked c older hc hold := by
    rcases List.suffix_cons_iff.1 hc with hsame | hearlier
    · exact absurd (List.cons.inj hsame).1.symm (hevent c)
    · exact (refl asked t).invoked c older hearlier hold

/-- A request. -/
theorem request {c : Callback} (hasked : asked c t) : Accounts asked t (.invoked c :: t) where
  suffix := List.suffix_cons _ t
  invoked c' older hc hold := by
    rcases List.suffix_cons_iff.1 hc with hsame | hearlier
    · obtain ⟨hcallback, rfl⟩ := List.cons.inj hsame
      obtain rfl := Event.invoked.inj hcallback
      exact hasked
    · exact (refl asked t).invoked c' older hearlier hold

end Trace.Accounts

/-- A sequence accounts for what its parts do. -/
theorem Trace.Accounts.sequence {σ α β : Type} (trace : σ → List Event)
    {asked : Callback → List Event → Prop} {x : EStateM Error σ α} {f : α → EStateM Error σ β}
    {s : σ} (hx : Accounts asked (trace s) (trace (leaves x s)))
    (hf : ∀ a s', x s = .ok a s' → Accounts asked (trace s') (trace (leaves (f a) s'))) :
    Accounts asked (trace s) (trace (leaves (x >>= f) s)) := by
  unfold leaves at hx ⊢
  cases hrun : x s with
  | ok a s' =>
    rw [hrun] at hx
    rw [bind_of_ok hrun]
    exact hx.trans (hf a s' hrun)
  | error e s' =>
    rw [hrun] at hx
    rw [bind_of_error hrun]
    exact hx

/-- The effect accounts for its requests. -/
def Action.Traced (host : Host) ⦃α : Type⦄ (x : Action α) : Prop :=
  ∀ w, Trace.Accounts (fun c older => ∃ w₁, Asks host c x w w₁ ∧ w₁.trace = older) w.trace
    (leaves x w).trace

/-- The evaluation does. -/
def Eval.Traced (host : Host) ⦃α : Type⦄ (x : Eval α) : Prop :=
  ∀ m, Trace.Accounts (fun c older => ∃ m₁, Asks host c x m m₁ ∧ m₁.world.trace = older)
    m.world.trace (leaves x m).world.trace

/-- Assigning to a property leaves the trace alone. -/
theorem Action.trace_assign (id : ObjectId) (key : String) (v : Value) (w : World) :
    (leaves (Action.assign id key v) w).trace = w.trace := by
  rw [leaves, Action.assign_eq]
  cases w.heap.set? id key v with
  | some h => rfl
  | none => rfl

/-- Setting a prototype leaves the trace alone. -/
theorem Action.trace_link (id : ObjectId) (prototype? : Option ObjectId) (w : World) :
    (leaves (Action.link id prototype?) w).trace = w.trace := by
  rw [leaves, Action.link_eq]
  cases w.heap.setPrototype? id prototype? with
  | some h => rfl
  | none => rfl

namespace Action.Traced

variable {host : Host} {α β : Type}

/-- An effect that leaves the trace alone. -/
theorem of_trace_eq {x : Action α} (hx : ∀ w, (leaves x w).trace = w.trace) :
    Traced host x := by
  intro w
  rw [hx w]
  exact .refl _ _

/-- A sequence accounts for its requests if its parts do. -/
theorem bind {x : Action α} {f : α → Action β} (hx : Traced host x)
    (hf : ∀ a, Traced host (f a)) : Traced host (x >>= f) := by
  intro w
  refine Trace.Accounts.sequence World.trace ((hx w).mono ?_) fun a w' hok => (hf a w').mono ?_
  · rintro c older ⟨w₁, hasks, htrace⟩
    exact ⟨w₁, .first hasks, htrace⟩
  · rintro c older ⟨w₁, hasks, htrace⟩
    exact ⟨w₁, .next hok hasks, htrace⟩

/-- Observing an event that is no request accounts for all requests, there being none. -/
theorem observe {event : Event} (hevent : ∀ c, event ≠ .invoked c) :
    Traced host (Action.observe event) :=
  fun _ => .observed hevent

end Action.Traced

/-! ### What a callback tells of itself -/

/-- The effect adds nothing to the trace but writes to properties. -/
def Action.OnlyWrites {α : Type} (x : Action α) : Prop :=
  ∀ w, ∃ own, (leaves x w).trace = own ++ w.trace ∧
    ∀ event ∈ own, ∃ accepted, event = .wrote accepted

namespace Action.OnlyWrites

variable {α β : Type}

/-- An effect that leaves the trace alone adds no event but writes. -/
theorem of_trace_eq {x : Action α} (hx : ∀ w, (leaves x w).trace = w.trace) : OnlyWrites x :=
  fun w => ⟨[], hx w, fun _ hevent => nomatch hevent⟩

/-- A sequence adds only writes if its parts do. -/
theorem bind {x : Action α} {f : α → Action β} (hx : OnlyWrites x) (hf : ∀ a, OnlyWrites (f a)) :
    OnlyWrites (x >>= f) := by
  intro w
  obtain ⟨own, htrace, hown⟩ := hx w
  unfold leaves at htrace ⊢
  cases hrun : x w with
  | ok a w' =>
    rw [hrun] at htrace
    rw [bind_of_ok hrun]
    obtain ⟨later, hlater, hwrites⟩ := hf a w'
    refine ⟨later ++ own, ?_, fun event hevent => ?_⟩
    · rw [List.append_assoc, ← htrace]
      exact hlater
    · rcases List.mem_append.1 hevent with hmem | hmem
      · exact hwrites event hmem
      · exact hown event hmem
  | error e w' =>
    rw [hrun] at htrace
    rw [bind_of_error hrun]
    exact ⟨own, htrace, hown⟩

/-- A reaction adds only writes, whatever its steps. -/
theorem run (r : Reaction) : OnlyWrites r.run := by
  induction r with
  | answer v => exact of_trace_eq fun _ => rfl
  | fail e => exact of_trace_eq fun _ => rfl
  | write id key v next ih =>
    have hobserve (accepted : Bool) : OnlyWrites (Action.observe (.wrote accepted)) := by
      intro w
      refine ⟨[.wrote accepted], rfl, fun event hevent => ⟨accepted, ?_⟩⟩
      exact List.mem_singleton.1 hevent
    have hassign : OnlyWrites (Action.assign id key v) :=
      of_trace_eq (Action.trace_assign id key v)
    exact hassign.bind fun accepted => (hobserve accepted).bind fun _ => ih accepted
  | create kind next ih =>
    have hcreate : OnlyWrites (Action.create kind) := of_trace_eq fun _ => rfl
    exact hcreate.bind ih
  | link id prototype? next ih =>
    have hlink : OnlyWrites (Action.link id prototype?) :=
      of_trace_eq (Action.trace_link id prototype?)
    exact hlink.bind ih

/-- A request is told, and after it the writes of the callback. -/
theorem ask (host : Host) (c : Callback) (w : World) :
    ∃ own, (leaves (host.ask c) w).trace = own ++ .invoked c :: w.trace ∧
      ∀ event ∈ own, ∃ accepted, event = .wrote accepted :=
  run (host.react c w) { w with trace := .invoked c :: w.trace }

end Action.OnlyWrites

namespace Action.Traced

variable {host : Host}

/-- The request itself is accounted for, and its callback makes none. -/
theorem ask (c : Callback) : Traced host (host.ask c) := by
  intro w
  obtain ⟨own, htrace, hown⟩ := OnlyWrites.ask host c w
  have hrequest : Trace.Accounts
      (fun c' older => ∃ w₁, Asks host c' (host.ask c) w w₁ ∧ w₁.trace = older) w.trace
      (.invoked c :: w.trace) := .request ⟨w, .ask w, rfl⟩
  rw [htrace]
  clear htrace
  induction own with
  | nil => exact hrequest
  | cons event rest ih =>
    obtain ⟨accepted, rfl⟩ := hown event List.mem_cons_self
    have hrest := ih fun event hevent => hown event (List.mem_cons_of_mem _ hevent)
    exact hrest.trans (.observed fun _ => nofun)

/-- So everything that is built from the steps accounts for its requests. -/
theorem closed (host : Host) : Action.Closed host (Traced host) where
  pure _ := of_trace_eq fun _ => rfl
  bind := bind
  fail _ := of_trace_eq fun _ => rfl
  heap := of_trace_eq fun _ => rfl
  create _ := of_trace_eq fun _ => rfl
  createFunction _ _ := of_trace_eq fun _ => rfl
  assign id key v := of_trace_eq (Action.trace_assign id key v)
  compared _ _ := observe fun _ => nofun
  ask := ask

/-- Naming a function makes no request. -/
theorem nameFunction (v : Value) (name : String) : Traced host (Action.nameFunction v name) := by
  cases v with
  | primitive p => exact of_trace_eq fun _ => rfl
  | object id => exact of_trace_eq fun _ => rfl

end Action.Traced

namespace Eval.Traced

variable {host : Host} {α β : Type}

/-- An effect that leaves the world alone. -/
theorem of_isWorldless {x : Eval α} (hx : x.IsWorldless) : Traced host x := by
  intro m
  rw [hx m]
  exact .refl _ _

/-- A sequence of evaluations accounts for its requests if its parts do. -/
theorem bind {x : Eval α} {f : α → Eval β} (hx : Traced host x)
    (hf : ∀ a, Traced host (f a)) : Traced host (x >>= f) := by
  intro m
  refine Trace.Accounts.sequence (fun m => m.world.trace) ((hx m).mono ?_)
    fun a m' hok => (hf a m').mono ?_
  · rintro c older ⟨m₁, hasks, htrace⟩
    exact ⟨m₁, .first hasks, htrace⟩
  · rintro c older ⟨m₁, hasks, htrace⟩
    exact ⟨m₁, .next hok hasks, htrace⟩

/-- An effect on the world accounts for its requests within the machine. -/
theorem lift {x : Action α} (hx : Action.Traced host x) : Traced host (Eval.lift x) := by
  intro m
  rw [world_leaves_lift]
  refine (hx m.world).mono ?_
  rintro c older ⟨w, hasks, htrace⟩
  exact ⟨{ m with world := w }, .lift hasks, htrace⟩

/-- Giving errors a place makes no request. -/
theorem locate {x : Eval α} (span : Span) (hx : Traced host x) :
    Traced host (Eval.locate span x) := by
  intro m
  rw [leaves_locate]
  refine (hx m).mono ?_
  rintro c older ⟨m₁, hasks, htrace⟩
  exact ⟨m₁, .locate span hasks, htrace⟩

/-- Neither does holding a reference in the pool. -/
theorem withReference (r : Reference) {x : RefId → Eval α} (hx : ∀ id, Traced host (x id)) :
    Traced host (Eval.withReference r x) := by
  intro m
  rw [world_leaves_withReference]
  refine (hx _ (m.acquire r).2).mono ?_
  rintro c older ⟨m₁, hasks, htrace⟩
  exact ⟨m₁, .withReference hasks, htrace⟩

/-- So trees account for their requests. -/
theorem pervasive (s : Settings) :
    Eval.Pervasive s (Action.Traced s.host) (Traced s.host) where
  steps := Action.Traced.closed s.host
  naming := Action.Traced.nameFunction
  handed _ _ := Action.Traced.observe fun _ => nofun
  worldless := of_isWorldless
  bind := bind
  lift := lift
  locate := locate
  withReference := withReference

/-- So the evaluation of a tree accounts for its requests. -/
theorem evaluate (s : Settings) (n : Node) : Traced s.host (evaluate s n) :=
  (pervasive s).evaluate n

end Eval.Traced

/-- Errors of callbacks are terminal and unmodified. The requests of a run are those that its trace
tells. When one of them fails, the run fails with the error of the callback, but for the place that
it may get, and it leaves the world as the callback left it and everything but the pool as it was at
the request: no callback is asked for after it, nothing is tried in its place, and no binding or
property is written. What the trace has after the request are writes of the callback itself. A
failure in the host keeps its identity, so it is the callback's own and not another with the same
text. Hosts are assumed to take the steps of a `Reaction` alone; in particular no callback calls
another and makes up for its error. -/
theorem callback_errors_terminal (s : Settings) (n : Node) (m : Machine) :
    (∀ c older, .invoked c :: older <:+ ((evaluate s n).after m).world.trace →
      m.world.trace <:+ older →
      ∃ m₁, Asks s.host c (evaluate s n) m m₁ ∧ m₁.world.trace = older) ∧
    ∀ c m₁ e w, Asks s.host c (evaluate s n) m m₁ → s.host.ask c m₁.world = .error e w →
      (∃ e' m', evaluate s n m = .error e' m' ∧ m₁.FailsAfter e w e' m') ∧
        ∃ own, w.trace = own ++ .invoked c :: m₁.world.trace ∧
          ∀ event ∈ own, ∃ accepted, event = .wrote accepted := by
  constructor
  · intro c older hc hold
    rw [after_eq_leaves] at hc
    exact (Traced.evaluate s n m).invoked c older hc hold
  · intro c m₁ e w hasks hfails
    have hown := Action.OnlyWrites.ask s.host c m₁.world
    unfold leaves at hown
    rw [hfails] at hown
    exact ⟨hasks.fails hfails, hown⟩

/-- In `x = f()` the callback behind `f` fails in the host, so the call is the last request and `x`
keeps its value. The error is that failure and no other with the same text. -/
theorem callback_errors_terminal_call :
    let e : Error := .ofCause (.host ⟨3⟩ "connection lost")
    let s : Settings :=
      ⟨⟨fun _ _ => .fail e, fun _ => false, fun _ => none, 0⟩, false, .elementwise⟩
    let h : Heap := (Heap.empty.add (.ofKind (.function ⟨"f", .function, some ⟨0⟩⟩))).2
    let env : Environment :=
      ((Environment.empty.define "f" (.object ⟨0⟩) .mutable).define "x" (.str "a") .mutable)
    let m : Machine := .start ⟨h, []⟩ none env
    let call : Node := .call (.identifier "f" ⟨4, 5⟩) [] ⟨4, 7⟩
    let n : Node := .assign .assign (.identifier "x") call ⟨0, 7⟩
    ∃ e' m', evaluate s n m = .error e' m' ∧ e'.cause = .host ⟨3⟩ "connection lost" ∧
      e'.cause ≠ .host ⟨4⟩ "connection lost" ∧
        m'.world.trace = [.invoked (.native ⟨0⟩ .undefined [])] ∧
        m'.env.lookup? "x" = some (.str "a") := by
  intro e s h env m call n
  obtain ⟨hrequests, hterminal⟩ := callback_errors_terminal s n m
  have htrace : ((evaluate s n).after m).world.trace =
      [.invoked (.native ⟨0⟩ .undefined [])] := rfl
  obtain ⟨m₁, hasks, hempty⟩ :=
    hrequests (.native ⟨0⟩ .undefined []) [] (htrace ▸ List.suffix_rfl) List.suffix_rfl
  have hfails : s.host.ask (.native ⟨0⟩ .undefined []) m₁.world =
      .error e { m₁.world with trace := .invoked (.native ⟨0⟩ .undefined []) :: m₁.world.trace } :=
    rfl
  obtain ⟨⟨e', m', herror, hafter⟩, -⟩ := hterminal _ m₁ _ _ hasks hfails
  refine ⟨e', m', herror, hafter.cause, ?_, ?_, ?_⟩
  · rw [hafter.cause]
    intro hsame
    cases hsame
  · rw [hafter.world, hempty]
  · have hlookup : ((evaluate s n).after m).env.lookup? "x" = some (.str "a") := rfl
    unfold Eval.after at hlookup
    rwa [herror] at hlookup

end ScriptOps
