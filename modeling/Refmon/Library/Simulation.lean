import Refmon.Library.Wp

/-!
# One computation simulates another

Two stateful computations that may fault, each over its own states, run side by side: `Sim Q E m n s t`
says that from `s` and `t` both return, with values and states related by `Q`, or both fault, with
faults and states related by `E`.
-/

namespace Simulation

open Wp

variable {ε ε' σ τ α α' β β' : Type}

/-- The two runs end in the same way, in related states. -/
def Sim (Q : α → σ → β → τ → Prop) (E : ε → σ → ε' → τ → Prop) (m : EStateM ε σ α) (n : EStateM ε' τ β)
    (s : σ) (t : τ) : Prop :=
  match m s, n t with
  | .ok a s', .ok b t' => Q a s' b t'
  | .error e s', .error e' t' => E e s' e' t'
  | _, _ => False

variable {Q Q' : α → σ → β → τ → Prop} {R : α' → σ → β' → τ → Prop} {E E' : ε → σ → ε' → τ → Prop}
  {m : EStateM ε σ α} {n : EStateM ε' τ β} {f : α → EStateM ε σ α'} {g : β → EStateM ε' τ β'}
  {s s' : σ} {t t' : τ} {a : α} {b : β}

theorem sim_pure (h : Q a s b t) : Sim Q E (pure a) (pure b) s t := h

theorem sim_throw {e : ε} {e' : ε'} (h : E e s e' t) : Sim Q E (throw e) (throw e') s t := h

/-- A simulation may be weakened on both endings. -/
theorem Sim.mono (h : Sim Q E m n s t) (hQ : ∀ a s b t, Q a s b t → Q' a s b t)
    (hE : ∀ e s e' t, E e s e' t → E' e s e' t) : Sim Q' E' m n s t := by
  unfold Sim at h ⊢
  cases hm : m s with
  | ok a s' =>
    cases hn : n t with
    | ok b t' =>
      rw [hm, hn] at h
      exact hQ _ _ _ _ h
    | error e' t' =>
      rw [hm, hn] at h
      exact h
  | error e s' =>
    cases hn : n t with
    | ok b t' =>
      rw [hm, hn] at h
      exact h
    | error e' t' =>
      rw [hm, hn] at h
      exact hE _ _ _ _ h

/-- Sequences simulate each other when their parts do. -/
theorem Sim.bind (h : Sim Q E m n s t) (hnext : ∀ a s b t, Q a s b t → Sim R E (f a) (g b) s t) :
    Sim R E (m >>= f) (n >>= g) s t := by
  unfold Sim at h
  cases hm : m s with
  | ok a s' =>
    cases hn : n t with
    | ok b t' =>
      rw [hm, hn] at h
      unfold Sim
      rw [bind_of_ok hm, bind_of_ok hn]
      exact hnext a s' b t' h
    | error e' t' =>
      rw [hm, hn] at h
      exact h.elim
  | error e s' =>
    cases hn : n t with
    | ok b t' =>
      rw [hm, hn] at h
      exact h.elim
    | error e' t' =>
      rw [hm, hn] at h
      unfold Sim
      rw [bind_of_error hm, bind_of_error hn]
      exact h

/-- A step of the first computation alone. -/
theorem sim_bind_left {n : EStateM ε' τ β'} (hm : m s = .ok a s') (h : Sim R E (f a) n s' t) :
    Sim R E (m >>= f) n s t := by
  unfold Sim at h ⊢
  rw [bind_of_ok hm]
  exact h

/-- A step of the second computation alone. -/
theorem sim_bind_right {m : EStateM ε σ α'} (hn : n t = .ok b t') (h : Sim R E m (g b) s t') :
    Sim R E m (n >>= g) s t := by
  unfold Sim at h ⊢
  rw [bind_of_ok hn]
  exact h

/-- Both test the same. -/
theorem sim_ite {c : Prop} [Decidable c] {m' : EStateM ε σ α} {n' : EStateM ε' τ β}
    (hthen : c → Sim Q E m n s t) (helse : ¬ c → Sim Q E m' n' s t) :
    Sim Q E (if c then m else m') (if c then n else n') s t := by
  by_cases hc : c
  · rw [if_pos hc, if_pos hc]
    exact hthen hc
  · rw [if_neg hc, if_neg hc]
    exact helse hc

/-- A run that returned simulates one that returned. -/
theorem Sim.exists_ok (h : Sim Q E m n s t) (hn : n t = .ok b t') : ∃ a s', m s = .ok a s' ∧ Q a s' b t' := by
  unfold Sim at h
  rw [hn] at h
  cases hm : m s with
  | ok a s' =>
    rw [hm] at h
    exact ⟨a, s', rfl, h⟩
  | error e s' =>
    rw [hm] at h
    exact h.elim

/-- And the other way round. -/
theorem Sim.exists_ok_right (h : Sim Q E m n s t) (hm : m s = .ok a s') :
    ∃ b t', n t = .ok b t' ∧ Q a s' b t' := by
  unfold Sim at h
  rw [hm] at h
  cases hn : n t with
  | ok b t' =>
    rw [hn] at h
    exact ⟨b, t', rfl, h⟩
  | error e t' =>
    rw [hn] at h
    exact h.elim

/-- A run that faulted simulates one that faulted. -/
theorem Sim.exists_error {e' : ε'} (h : Sim Q E m n s t) (hn : n t = .error e' t') :
    ∃ e s', m s = .error e s' ∧ E e s' e' t' := by
  unfold Sim at h
  rw [hn] at h
  cases hm : m s with
  | ok a s' =>
    rw [hm] at h
    exact h.elim
  | error e s' =>
    rw [hm] at h
    exact ⟨e, s', rfl, h⟩

end Simulation
