import Regrid.Attempt

/-!
# Chains of changes

What a chain of changes does, by its first one: it goes on with the state that this leaves
(`run_bind_ok`), or it ends there (`run_bind_error`). From two states that stand in a relation it
may tell the same and keep the relation (`Agrees`); a chain does if its changes do.
-/

namespace Regrid

namespace Attempt

variable {σ α β : Type}

theorem run_getThe (s : σ) : (getThe σ : Attempt σ σ).run s = .ok s s := rfl

theorem run_bind_ok {x : Attempt σ α} {s s' : σ} {a : α} (h : x.run s = .ok a s')
    (f : α → Attempt σ β) : (x >>= f).run s = (f a).run s' := by
  rw [EStateM.run_bind, h]

theorem run_bind_error {x : Attempt σ α} {s s' : σ} {e : Error} (h : x.run s = .error e s')
    (f : α → Attempt σ β) : (x >>= f).run s = .error e s' := by
  rw [EStateM.run_bind, h]

theorem run_liftM_ok {x : Except Error α} {a : α} (h : x = .ok a) (s : σ) :
    (liftM x : Attempt σ α).run s = .ok a s := by
  rw [h]
  rfl

theorem run_liftM_error {x : Except Error α} {e : Error} (h : x = .error e) (s : σ) :
    (liftM x : Attempt σ α).run s = .error e s := by
  rw [h]
  rfl

theorem after_of_ok {x : Attempt σ α} {s s' : σ} {a : α} (h : x.run s = .ok a s') :
    x.after s = s' := by
  rw [after, h]

theorem after_of_error {x : Attempt σ α} {s s' : σ} {e : Error} (h : x.run s = .error e s') :
    x.after s = s' := by
  rw [after, h]

theorem resultOn_of_ok {x : Attempt σ α} {s s' : σ} {a : α} (h : x.run s = .ok a s') :
    x.resultOn s = .ok a := by
  rw [resultOn, h]

theorem run_discard_ok {x : Attempt σ α} {s s' : σ} {a : α} (h : x.run s = .ok a s') :
    (discard x).run s = .ok () s' := by
  show EStateM.map _ x s = _
  rw [EStateM.map, show x s = .ok a s' from h]

theorem run_discard_error {x : Attempt σ α} {s s' : σ} {e : Error} (h : x.run s = .error e s') :
    (discard x).run s = .error e s' := by
  show EStateM.map _ x s = _
  rw [EStateM.map, show x s = .error e s' from h]

/-- Forgetting the result changes nothing about the state. -/
theorem after_discard (x : Attempt σ α) (s : σ) : (discard x).after s = x.after s := by
  cases h : x.run s with
  | ok a s' => rw [after_of_ok h, after_of_ok (run_discard_ok h)]
  | error e s' => rw [after_of_error h, after_of_error (run_discard_error h)]

/-- Nor does telling something else. -/
theorem after_bind_pure (x : Attempt σ α) (f : α → β) (s : σ) :
    (x >>= fun a => pure (f a)).after s = x.after s := by
  cases h : x.run s with
  | ok a s' => rw [after_of_ok h, after, run_bind_ok h, EStateM.run_pure]
  | error e s' => rw [after_of_error h, after_of_error (run_bind_error h _)]

/-- What holds before a computation without a state holds after it. -/
theorem after_liftM_bind {P : σ → Prop} {x : Except Error α} {f : α → Attempt σ β} {s : σ}
    (h : P s) (hf : ∀ a, x = .ok a → P ((f a).after s)) :
    P ((liftM x >>= f : Attempt σ β).after s) := by
  cases hx : x with
  | ok a =>
    rw [after, run_bind_ok (run_liftM_ok rfl s)]
    exact hf a hx
  | error e =>
    rw [after_of_error (run_bind_error (run_liftM_error rfl s) f)]
    exact h

section Within

variable {τ : Type} {part : σ → τ} {replace : τ → σ → σ} {x : Attempt τ α} {s : σ} {t : τ}

theorem run_within_ok {a : α} (h : x.run (part s) = .ok a t) :
    (x.within part replace).run s = .ok a (replace t s) := by
  show within part replace x s = _
  rw [within, h]

theorem run_within_error {e : Error} (h : x.run (part s) = .error e t) :
    (x.within part replace).run s = .error e (replace t s) := by
  show within part replace x s = _
  rw [within, h]

theorem after_within : (x.within part replace).after s = replace (x.after (part s)) s := by
  cases h : x.run (part s) with
  | ok a t => rw [after_of_ok h, after_of_ok (run_within_ok h)]
  | error e t => rw [after_of_error h, after_of_error (run_within_error h)]

end Within

/-! ## Runs from two states -/

section Agrees

variable {R : σ → σ → Prop} {x : Attempt σ α} {s s' : σ}

/-- From states that stand in a relation an attempt tells the same, and it leaves states that stand
in it. -/
def Agrees (R : σ → σ → Prop) (x : Attempt σ α) : Prop :=
  ∀ s s', R s s' → x.resultOn s = x.resultOn s' ∧ R (x.after s) (x.after s')

theorem Agrees.cases (hx : Agrees R x) (h : R s s') :
    (∃ a t t', x.run s = .ok a t ∧ x.run s' = .ok a t' ∧ R t t') ∨
      ∃ e t t', x.run s = .error e t ∧ x.run s' = .error e t' ∧ R t t' := by
  obtain ⟨hresult, hafter⟩ := hx s s' h
  unfold resultOn at hresult
  unfold after at hafter
  cases hs : x.run s <;> cases hs' : x.run s' <;> rw [hs, hs'] at hresult hafter <;> cases hresult
  · exact Or.inl ⟨_, _, _, rfl, rfl, hafter⟩
  · exact Or.inr ⟨_, _, _, rfl, rfl, hafter⟩

theorem agrees_pure (a : α) : Agrees R (pure a) := fun _ _ h => ⟨rfl, h⟩

theorem Agrees.bind {f : α → Attempt σ β} (hx : Agrees R x) (hf : ∀ a, Agrees R (f a)) :
    Agrees R (x >>= f) := by
  intro s s' h
  unfold resultOn after
  rcases hx.cases h with ⟨a, t, t', hs, hs', ht⟩ | ⟨e, t, t', hs, hs', ht⟩
  · rw [run_bind_ok hs, run_bind_ok hs']
    exact hf a t t' ht
  · rw [run_bind_error hs, run_bind_error hs']
    exact ⟨rfl, ht⟩

theorem agrees_liftM (x : Except Error α) : Agrees R (liftM x : Attempt σ α) := by
  intro s s' h
  cases x with
  | ok a => exact ⟨rfl, h⟩
  | error e => exact ⟨rfl, h⟩

/-- What is read off the state must be the same on both sides. -/
theorem agrees_get_bind {f : σ → Attempt σ β} (hf : ∀ s, Agrees R (f s))
    (hsame : ∀ s s', R s s' → f s = f s') : Agrees R (get >>= f) := by
  intro s s' h
  have hrun (t : σ) : (get >>= f : Attempt σ β).run t = (f t).run t := rfl
  unfold resultOn after
  rw [hrun, hrun, ← hsame s s' h]
  exact hf s s s' h

theorem agrees_modify {f : σ → σ} (hf : ∀ s s', R s s' → R (f s) (f s')) :
    Agrees R (modify f : Attempt σ PUnit) := fun s s' h => ⟨rfl, hf s s' h⟩

theorem Agrees.discard (hx : Agrees R x) : Agrees R (discard x) := hx.bind fun _ => agrees_pure _

theorem Agrees.within {τ : Type} {S : τ → τ → Prop} {part : σ → τ} {replace : τ → σ → σ}
    {x : Attempt τ α} (hx : Agrees S x) (hpart : ∀ s s', R s s' → S (part s) (part s'))
    (hreplace : ∀ s s' t t', R s s' → S t t' → R (replace t s) (replace t' s')) :
    Agrees R (x.within part replace) := by
  intro s s' h
  unfold resultOn after
  rcases hx.cases (hpart s s' h) with ⟨a, t, t', hs, hs', ht⟩ | ⟨e, t, t', hs, hs', ht⟩
  · rw [run_within_ok hs, run_within_ok hs']
    exact ⟨rfl, hreplace s s' t t' h ht⟩
  · rw [run_within_error hs, run_within_error hs']
    exact ⟨rfl, hreplace s s' t t' h ht⟩

end Agrees

end Attempt

end Regrid
