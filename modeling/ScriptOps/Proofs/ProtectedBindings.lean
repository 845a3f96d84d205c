import ScriptOps.Proofs.Contracts

/-!
# Bindings are protected

Evaluation reaches the bindings through two writes alone: a name gets a new value in a scope that
declares it as mutable, or sloppy code declares a name that no scope declares, in the global scope.
`Environment.Protects` says what is left alone by such writes, one after the other. It is a contract
of evaluation, so it holds of whole runs.
-/

namespace ScriptOps

open Eval

namespace Environment

/-! ### What writes leave alone -/

/-- The scopes are the same. Bindings stay, with their mutability; those that are constant or
read-only, those of names that are not assigned to, and those of names that strict code reserves
keep their values too. New bindings are mutable, global, and made by sloppy code. -/
structure Protects (s : Settings) (assigned : String → Prop) (e e' : Environment) : Prop where
  stack : e'.stack = e.stack
  size : e'.store.scopes.size = e.store.scopes.size
  parent : ∀ id, (e'.store.scope id).parent? = (e.store.scope id).parent?
  kept : ∀ id name b, e.binding? id name = some b →
    ∃ v, e'.binding? id name = some ⟨v, b.mutability⟩
  fixed : ∀ id name b, e.binding? id name = some b →
    b.mutability ≠ .mutable ∨ ¬assigned name ∨ s.refuses name → e'.binding? id name = some b
  created : ∀ id name b, e.binding? id name = none → e'.binding? id name = some b →
    id = global ∧ b.mutability = .mutable ∧ s.strict = false ∧ assigned name

variable {s : Settings} {assigned : String → Prop} {e e₁ e₂ e' : Environment} {id : ScopeId}
  {name : String} {v : Value}

namespace Protects

theorem refl (s : Settings) (assigned : String → Prop) (e : Environment) :
    Protects s assigned e e where
  stack := rfl
  size := rfl
  parent _ := rfl
  kept _ _ b hb := ⟨b.value, hb⟩
  fixed _ _ _ hb _ := hb
  created _ _ _ hnone hb := by
    rw [hnone] at hb
    nomatch hb

/-- Protection composes along a run. -/
theorem trans (h₁ : Protects s assigned e e₁) (h₂ : Protects s assigned e₁ e₂) :
    Protects s assigned e e₂ where
  stack := h₂.stack.trans h₁.stack
  size := h₂.size.trans h₁.size
  parent id := (h₂.parent id).trans (h₁.parent id)
  kept id name b hb := by
    obtain ⟨v, hv⟩ := h₁.kept id name b hb
    exact h₂.kept id name ⟨v, b.mutability⟩ hv
  fixed id name b hb hguarded := h₂.fixed id name b (h₁.fixed id name b hb hguarded) hguarded
  created id name b hnone hb := by
    cases hmiddle : e₁.binding? id name with
    | none => exact h₂.created id name b hmiddle hb
    | some b₁ =>
      obtain ⟨hglobal, hmutable, hrest⟩ := h₁.created id name b₁ hnone hmiddle
      -- the second write keeps the mutability of what the first one made
      obtain ⟨v, hv⟩ := h₂.kept id name b₁ hmiddle
      rw [hb] at hv
      obtain rfl := Option.some.inj hv
      exact ⟨hglobal, hmutable, hrest⟩

end Protects

/-! ### Single writes -/

/-- A write that may be made: to a mutable binding, or a new global one of sloppy code. -/
theorem protects_define (hassigned : assigned name) (hname : s.refuses name = false)
    (hold : ∀ b, e.binding? id name = some b → b.mutability = .mutable)
    (hnew : e.binding? id name = none → id = global ∧ s.strict = false) :
    Protects s assigned e { e with store := e.store.define id name v .mutable } where
  stack := rfl
  size := e.store.size_define id name v .mutable
  parent other := e.store.parent?_define id other name v .mutable
  kept other key b hb := by
    rw [binding?_define]
    split
    · next hsame =>
      obtain ⟨rfl, rfl, -⟩ := hsame
      exact ⟨v, by rw [hold b hb]⟩
    · exact ⟨b.value, hb⟩
  fixed other key b hb hguarded := by
    rw [binding?_define]
    split
    · next hsame =>
      obtain ⟨rfl, rfl, -⟩ := hsame
      rcases hguarded with hmutability | hfree | hrefused
      · exact absurd (hold b hb) hmutability
      · exact absurd hassigned hfree
      · rw [hname] at hrefused
        nomatch hrefused
    · exact hb
  created other key b hnone hb := by
    rw [binding?_define] at hb
    split at hb
    · next hsame =>
      obtain ⟨rfl, rfl, -⟩ := hsame
      obtain ⟨hglobal, hsloppy⟩ := hnew hnone
      obtain rfl := Option.some.inj hb
      exact ⟨hglobal, rfl, hsloppy, hassigned⟩
    · rw [hnone] at hb
      nomatch hb

/-- A new value for a name is accepted where the name is mutable. -/
theorem protects_setOwn (hassigned : assigned name) (hname : s.refuses name = false)
    (hset : e.setOwn id name v = .ok e') : Protects s assigned e e' := by
  have hmutability := mutability?_of_setOwn hset
  obtain ⟨b, hb, hmutable⟩ := Option.map_eq_some_iff.1 hmutability
  rw [eq_define_of_setOwn hset]
  refine protects_define hassigned hname (fun b' hb' => ?_) fun hnone => ?_
  · obtain rfl := Option.some.inj (hb.symm.trans hb')
    exact hmutable
  · nomatch hnone.symm.trans hb

/-- A name that no scope of the stack declares is new to the global one. -/
theorem protects_defineGlobal (hglobal : global ∈ e.stack) (hassigned : assigned name)
    (hname : s.refuses name = false) (hsloppy : s.strict = false)
    (hresolve : e.resolve? name = none) :
    Protects s assigned e (e.defineGlobal name v .mutable) := by
  have hundeclared := List.find?_eq_none.1 hresolve global hglobal
  have hnone : e.binding? global name = none := by
    simpa [binding?, Scope.declares, Table.contains] using hundeclared
  refine protects_define hassigned hname (fun b hb => ?_) fun _ => ⟨rfl, hsloppy⟩
  rw [hnone] at hb
  cases hb

end Environment

/-! ### Whole runs -/

/-- The names that a feature writes are among the given ones. -/
def Feature.WritesWithin (assigned : String → Prop) : Feature → Prop
  | .written _ name => assigned name
  | _ => True

/-- Protection is a contract of evaluation. Nothing is said about errors. -/
theorem Environment.protects_contract (s : Settings) (assigned : String → Prop) :
    Contract s (Feature.WritesWithin assigned) (fun _ _ => True)
      (fun e e' => global ∈ e.stack → e.Protects s assigned e') (fun _ => True) fun _ => True where
  steps := .trivial s.host
  naming _ _ := trivial
  refl e _ := .refl s assigned e
  trans e₁ e₂ e₃ h₁ h₂ hglobal := by
    have hfirst := h₁ hglobal
    have hsecond := h₂ (hfirst.stack ▸ hglobal)
    exact hfirst.trans hsecond
  setOwn hF hname hset _ := protects_setOwn hF hname hset
  declare hF hname hsloppy hresolve hglobal :=
    protects_defineGlobal hglobal hF hname hsloppy hresolve
  failed _ _ := trivial
  raw _ := trivial
  cause _ := trivial
  place _ _ := trivial
  escape _ := trivial

/-- Bindings are protected across whole runs, whether they come to a value or fail. No scope is
pushed or popped, no binding disappears or changes its mutability. Constant and read-only bindings
keep their values, and so do those of names that the tree does not assign to and, in strict code, of
the names that it reserves. New bindings are mutable global ones of sloppy code. -/
theorem bindings_protected (s : Settings) (n : Node) {m : Machine} (hm : m.Reachable) :
    m.env.Protects s n.Assigns ((evaluate s n).after m).env := by
  have hcontract := Environment.protects_contract s n.Assigns
  have hfeatures : ∀ f ∈ n.features, f.WritesWithin n.Assigns := by
    intro f hf
    cases f with
    | written op? name => exact ⟨op?, hf⟩
    | _ => trivial
  have hrun := hcontract.evaluate n hfeatures hm.references.valid
  have hglobal := hm.env.global_mem_stack
  unfold Eval.after
  generalize evaluate s n m = outcome at hrun ⊢
  cases hrun with
  | ok _ henv => exact henv hglobal
  | error _ henv _ => exact henv hglobal

/-- The assignment `x = "b"` leaves the constant `x` as it was. -/
theorem bindings_protected_constant :
    let m : Machine := .start ⟨.empty, []⟩ none (.define .empty "x" (.str "a") .immutable)
    let n : Node := .assign .assign (.identifier "x") (.constant (.str "b")) ⟨0, 7⟩
    m.Reachable ∧ ∀ s : Settings,
      ((evaluate s n).after m).env.binding? Environment.global "x" =
        some ⟨.str "a", .immutable⟩ := by
  intro m n
  have hm : m.Reachable := .start _ none (.define "x" (.str "a") .immutable .empty)
  have hbinding : m.env.binding? Environment.global "x" = some ⟨.str "a", .immutable⟩ := rfl
  refine ⟨hm, fun s => ?_⟩
  have hprotects := bindings_protected s n hm
  exact hprotects.fixed Environment.global "x" _ hbinding (.inl (by decide))

end ScriptOps
