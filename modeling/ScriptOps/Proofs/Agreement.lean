import Mathlib.Data.List.Forall2

/-!
# Effects that agree

Two effects match when, started in related states, they end in outcomes that agree: both in values
or both in errors, these related, and the states that they leave related again. Matching is kept by
sequencing, so that a relation between two programs is proved step by step.
-/

namespace ScriptOps

variable {ε ε' σ τ α β γ δ : Type}

/-- After a value the sequence goes on from the state that was left. -/
theorem bind_of_ok {x : EStateM ε σ α} {f : α → EStateM ε σ β} {s t : σ} {a : α}
    (h : x s = .ok a t) : (x >>= f) s = f a t := by
  change EStateM.bind x f s = f a t
  rw [EStateM.bind, h]

/-- After an error the sequence ends. -/
theorem bind_of_error {x : EStateM ε σ α} {f : α → EStateM ε σ β} {s t : σ} {e : ε}
    (h : x s = .error e t) : (x >>= f) s = .error e t := by
  change EStateM.bind x f s = .error e t
  rw [EStateM.bind, h]

/-- A value is mapped. -/
theorem map_of_ok {x : EStateM ε σ α} {s t : σ} {a : α} (g : α → β) (h : x s = .ok a t) :
    (g <$> x) s = .ok (g a) t := by
  rw [map_eq_pure_bind]
  exact bind_of_ok h

/-- An error is not. -/
theorem map_of_error {x : EStateM ε σ α} {s t : σ} {e : ε} (g : α → β) (h : x s = .error e t) :
    (g <$> x) s = .error e t := by
  rw [map_eq_pure_bind]
  exact bind_of_error h

/-- A sequence that ends in a value has a first part that does. -/
theorem ok_of_bind {x : EStateM ε σ α} {f : α → EStateM ε σ β} {s t : σ} {b : β}
    (h : (x >>= f) s = .ok b t) : ∃ a u, x s = .ok a u ∧ f a u = .ok b t := by
  cases hx : x s with
  | ok a u => exact ⟨a, u, rfl, (bind_of_ok hx).symm.trans h⟩
  | error e u => cases (bind_of_error hx).symm.trans h

/-- A sequence depends on the outcome of its first part alone. -/
theorem bind_of_eq {x y : EStateM ε σ α} {f : α → EStateM ε σ β} {s t : σ} (h : x s = y t) :
    (x >>= f) s = (y >>= f) t := by
  change EStateM.bind x f s = EStateM.bind y f t
  rw [EStateM.bind, EStateM.bind, h]

/-- Both outcomes are values or both are errors, with related states. -/
inductive Agree (V : α → β → Prop) (E : ε → ε' → Prop) (R : σ → τ → Prop) :
    EStateM.Result ε σ α → EStateM.Result ε' τ β → Prop where
  | ok {a : α} {b : β} {s : σ} {t : τ} : V a b → R s t → Agree V E R (.ok a s) (.ok b t)
  | error {e : ε} {f : ε'} {s : σ} {t : τ} : E e f → R s t → Agree V E R (.error e s) (.error f t)

/-- What agrees agrees under weaker relations. -/
theorem Agree.mono {V V' : α → β → Prop} {E E' : ε → ε' → Prop} {R R' : σ → τ → Prop}
    (hV : ∀ a b, V a b → V' a b) (hE : ∀ e f, E e f → E' e f) (hR : ∀ s t, R s t → R' s t)
    {x : EStateM.Result ε σ α} {y : EStateM.Result ε' τ β} (h : Agree V E R x y) :
    Agree V' E' R' x y := by
  cases h with
  | ok hv hr => exact .ok (hV _ _ hv) (hR _ _ hr)
  | error he hr => exact .error (hE _ _ he) (hR _ _ hr)

/-- Started in related states, the effects end in outcomes that agree. -/
def Matches (V : α → β → Prop) (E : ε → ε' → Prop) (R : σ → τ → Prop) (x : EStateM ε σ α)
    (y : EStateM ε' τ β) : Prop :=
  ∀ ⦃s t⦄, R s t → Agree V E R (x s) (y t)

namespace Matches

variable {V : α → β → Prop} {W : γ → δ → Prop} {E : ε → ε' → Prop} {R : σ → τ → Prop}

/-- Related values match. -/
theorem pure {a : α} {b : β} (h : V a b) :
    Matches V E R (pure a : EStateM ε σ α) (pure b : EStateM ε' τ β) :=
  fun _ _ hst => .ok h hst

/-- Related errors match. -/
theorem throw {e : ε} {f : ε'} (h : E e f) :
    Matches V E R (throw e : EStateM ε σ α) (throw f : EStateM ε' τ β) :=
  fun _ _ hst => .error h hst

/-- Reading the state gives related states. -/
theorem get : Matches R E R (get : EStateM ε σ σ) (get : EStateM ε' τ τ) :=
  fun _ _ hst => .ok hst hst

/-- Changes that keep the states related match. -/
theorem modify {f : σ → σ} {g : τ → τ} (h : ∀ s t, R s t → R (f s) (g t)) :
    Matches Eq E R (modify f : EStateM ε σ PUnit) (modify g : EStateM ε' τ PUnit) :=
  fun _ _ hst => .ok rfl (h _ _ hst)

/-- After effects that match, effects that match for related values. -/
theorem bind {x : EStateM ε σ α} {y : EStateM ε' τ β} {f : α → EStateM ε σ γ}
    {g : β → EStateM ε' τ δ} (hx : Matches V E R x y)
    (hf : ∀ a b, V a b → Matches W E R (f a) (g b)) : Matches W E R (x >>= f) (y >>= g) := by
  intro s t hst
  have h := hx hst
  change Agree W E R (EStateM.bind x f s) (EStateM.bind y g t)
  unfold EStateM.bind
  generalize x s = p at h ⊢
  generalize y t = q at h ⊢
  cases h with
  | ok hv hr => exact hf _ _ hv hr
  | error he hr => exact .error he hr

/-- An effect that matches a value can be left out on the other side. -/
theorem skip {a : β} {x : EStateM ε σ γ} {y : EStateM ε' τ β} {g : β → EStateM ε' τ δ}
    (hy : Matches Eq E R (Pure.pure a : EStateM ε σ β) y) (hx : Matches W E R x (g a)) :
    Matches W E R x (y >>= g) := by
  intro s t hst
  have h := hy hst
  change Agree W E R (x s) (EStateM.bind y g t)
  change Agree Eq E R (.ok a s) (y t) at h
  unfold EStateM.bind
  generalize y t = q at h ⊢
  cases h with
  | ok hv hr =>
    subst hv
    exact hx hr

/-- The same decision on both sides. -/
theorem ite {c : Prop} [Decidable c] {x x' : EStateM ε σ α} {y y' : EStateM ε' τ β}
    (hx : Matches V E R x y) (hx' : Matches V E R x' y') :
    Matches V E R (if c then x else x') (if c then y else y') := by
  split
  · exact hx
  · exact hx'

/-- A list of effects that match gives lists of related values. -/
theorem mapM {ι : Type} {f : ι → EStateM ε σ α} {g : ι → EStateM ε' τ β} (l : List ι)
    (h : ∀ i, Matches V E R (f i) (g i)) :
    Matches (List.Forall₂ V) E R (l.mapM f) (l.mapM g) := by
  induction l with
  | nil => exact pure .nil
  | cons i rest ih =>
    rw [List.mapM_cons, List.mapM_cons]
    exact bind (h i) fun a b hab => bind ih fun as bs hs => pure (.cons hab hs)

end Matches

end ScriptOps
