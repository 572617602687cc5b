import Mathlib.Tactic.Common

/-!
# Weakest preconditions of stateful computations that may fault

A computation in `EStateM ε σ` ends either with a value or with a fault, and in both
cases leaves a state. `wp m Q E s` says that from `s` the computation ends in `Q` when
it returns and in `E` when it faults. `Moves R m` says that every run of `m` relates its
first and last states by `R`, whichever way it ends; `Returns R m` says in addition that no
run faults. `Yields answers m` lists what `m` can return. `Blind φ m` says that `m` does the
same on a state and on what `φ` makes of it.
-/

namespace Wp

variable {ε σ α β : Type}

/-- From `s`, a returned value satisfies `Q` and a fault satisfies `E`. -/
def wp (m : EStateM ε σ α) (Q : α → σ → Prop) (E : ε → σ → Prop) (s : σ) : Prop :=
  match m s with
  | .ok a s' => Q a s'
  | .error e s' => E e s'

/-- Returning a value leaves the state alone. -/
@[simp] theorem wp_pure (a : α) (Q : α → σ → Prop) (E : ε → σ → Prop) (s : σ) :
    wp (pure a) Q E s ↔ Q a s := Iff.rfl

/-- A fault ends the computation in the current state. -/
@[simp] theorem wp_throw (e : ε) (Q : α → σ → Prop) (E : ε → σ → Prop) (s : σ) :
    wp (throw e) Q E s ↔ E e s := Iff.rfl

/-- Reading the state returns it unchanged. -/
@[simp] theorem wp_get (Q : σ → σ → Prop) (E : ε → σ → Prop) (s : σ) :
    wp get Q E s ↔ Q s s := Iff.rfl

/-- An update is the only effect of `modify`. -/
@[simp] theorem wp_modify (f : σ → σ) (Q : PUnit → σ → Prop) (E : ε → σ → Prop) (s : σ) :
    wp (modify f) Q E s ↔ Q ⟨⟩ (f s) := Iff.rfl

/-- Sequencing runs the continuation from the state the first part leaves. -/
@[simp] theorem wp_bind (m : EStateM ε σ α) (f : α → EStateM ε σ β)
    (Q : β → σ → Prop) (E : ε → σ → Prop) (s : σ) :
    wp (m >>= f) Q E s ↔ wp m (fun a s' => wp (f a) Q E s') E s := by
  simp only [wp, bind, EStateM.bind]
  cases m s <;> rfl

/-- Nothing follows a run that faulted. -/
theorem bind_of_error {m : EStateM ε σ α} {s t : σ} {e : ε} (h : m s = .error e t)
    (f : α → EStateM ε σ β) : (m >>= f) s = .error e t := by
  simp only [bind, EStateM.bind, h]

theorem pure_run (a : α) (s : σ) : (pure a : EStateM ε σ α) s = .ok a s := rfl

theorem throw_run (e : ε) (s : σ) : (throw e : EStateM ε σ α) s = .error e s := rfl

/-- A function applied to the result applies to the returned value. -/
@[simp] theorem wp_map (f : α → β) (m : EStateM ε σ α) (Q : β → σ → Prop) (E : ε → σ → Prop)
    (s : σ) : wp (f <$> m) Q E s ↔ wp m (fun a => Q (f a)) E s := by
  simp only [wp, Functor.map, EStateM.map]
  cases m s <;> rfl

/-- What follows a run that returned goes on from its value and its state. -/
theorem bind_of_ok {m : EStateM ε σ α} {s t : σ} {a : α} (h : m s = .ok a t)
    (f : α → EStateM ε σ β) : (m >>= f) s = f a t := by
  simp only [bind, EStateM.bind, h]

/-- A specification of one run may be weakened on both endings. -/
theorem wp_mono {m : EStateM ε σ α} {Q Q' : α → σ → Prop} {E E' : ε → σ → Prop} {s : σ}
    (h : wp m Q E s) (hQ : ∀ a s', Q a s' → Q' a s') (hE : ∀ e s', E e s' → E' e s') :
    wp m Q' E' s := by
  unfold wp at h ⊢
  cases hm : m s with
  | ok a s' => rw [hm] at h; exact hQ a s' h
  | error e s' => rw [hm] at h; exact hE e s' h

/-- Specifications that hold under different assumptions hold together of one run. -/
theorem wp_forall {χ : Type} {H : χ → Prop} {P : χ → α → σ → Prop} {m : EStateM ε σ α}
    {Q : α → σ → Prop} {E : ε → σ → Prop} {s : σ} (hm : wp m Q E s)
    (h : ∀ x, H x → wp m (P x) (fun _ _ => True) s) :
    wp m (fun a t => (∀ x, H x → P x a t) ∧ Q a t) E s := by
  unfold wp at hm h ⊢
  cases hrun : m s with
  | ok a t =>
    rw [hrun] at hm h
    exact ⟨h, hm⟩
  | error e t =>
    rw [hrun] at hm
    exact hm

/-- A specification applies to the value an observed run returned. -/
theorem wp_ok {m : EStateM ε σ α} {Q : α → σ → Prop} {E : ε → σ → Prop} {s s' : σ} {a : α}
    (h : wp m Q E s) (hm : m s = .ok a s') : Q a s' := by
  unfold wp at h
  rw [hm] at h
  exact h

/-- A specification may be checked on the run itself. -/
theorem wp_of_run {m : EStateM ε σ α} {Q : α → σ → Prop} {E : ε → σ → Prop} {s : σ}
    (hok : ∀ a t, m s = .ok a t → Q a t) (herror : ∀ e t, m s = .error e t → E e t) : wp m Q E s := by
  unfold wp
  cases hm : m s with
  | ok a t => exact hok a t hm
  | error e t => exact herror e t hm

/-- A specification applies to the fault an observed run ended with. -/
theorem wp_error {m : EStateM ε σ α} {Q : α → σ → Prop} {E : ε → σ → Prop} {s s' : σ} {e : ε}
    (h : wp m Q E s) (hm : m s = .error e s') : E e s' := by
  unfold wp at h
  rw [hm] at h
  exact h

/-- A run known to return needs its specification at the returned value only. -/
theorem wp_of_ok {m : EStateM ε σ α} {Q : α → σ → Prop} {E : ε → σ → Prop} {s s' : σ} {a : α}
    (hm : m s = .ok a s') (h : Q a s') : wp m Q E s := by
  unfold wp
  rw [hm]
  exact h

/-- A specification that excludes faults implies one that says nothing about them. -/
theorem wp_of_returns {m : EStateM ε σ α} {Q : α → σ → Prop} {E : ε → σ → Prop} {s : σ}
    (h : wp m Q (fun _ _ => False) s) : wp m Q E s :=
  wp_mono h (fun _ _ hQ => hQ) fun _ _ hF => hF.elim

/-- A computation whose faults are excluded returns a value meeting its specification. -/
theorem wp_returns {m : EStateM ε σ α} {Q : α → σ → Prop} {s : σ}
    (h : wp m Q (fun _ _ => False) s) : ∃ a s', m s = .ok a s' ∧ Q a s' := by
  unfold wp at h
  cases hm : m s with
  | ok a s' => rw [hm] at h; exact ⟨a, s', rfl, h⟩
  | error e s' => rw [hm] at h; exact h.elim

/-- The state a run leaves, however it ends. -/
def after : EStateM.Result ε σ α → σ
  | .ok _ s => s
  | .error _ s => s

@[simp] theorem after_ok (a : α) (s : σ) : after (.ok a s : EStateM.Result ε σ α) = s := rfl

@[simp] theorem after_error (e : ε) (s : σ) : after (.error e s : EStateM.Result ε σ α) = s := rfl

/-- The value a run returns, if it returns. -/
def returned : EStateM.Result ε σ α → Option α
  | .ok a _ => some a
  | .error _ _ => none

/-- A run that returns a value leaves the state it leaves. -/
theorem returned_eq_some {r : EStateM.Result ε σ α} {a : α} (h : returned r = some a) :
    r = .ok a (after r) := by
  cases r with
  | ok b s =>
    rw [returned, Option.some.injEq] at h
    rw [h, after]
  | error e s => cases h

/-- The fault a run ends with, if it faults. -/
def faultOf : EStateM.Result ε σ α → Option ε
  | .ok _ _ => none
  | .error e _ => some e

theorem exists_error_of_faultOf {r : EStateM.Result ε σ α} {e : ε} (h : faultOf r = some e) :
    ∃ s, r = .error e s := by
  cases r with
  | ok a s => cases h
  | error e' s =>
    rw [faultOf, Option.some.injEq] at h
    exact ⟨s, by rw [h]⟩

/-- A specification indifferent to how the run ends speaks of the state it leaves. -/
theorem wp_after {m : EStateM ε σ α} {P : σ → Prop} {s : σ}
    (h : wp m (fun _ => P) (fun _ => P) s) : P (after (m s)) := by
  unfold wp at h
  cases hm : m s with
  | ok a s' => rw [hm] at h; exact h
  | error e s' => rw [hm] at h; exact h

/-- Every run relates the state it starts from to the state it leaves. -/
def Moves (R : σ → σ → Prop) (m : EStateM ε σ α) : Prop :=
  ∀ s, wp m (fun _ => R s) (fun _ => R s) s

section Moves

variable {R : σ → σ → Prop}

/-- Returning stays in place. -/
theorem Moves.pure (hrefl : ∀ s, R s s) (a : α) : Moves R (pure a : EStateM ε σ α) :=
  fun s => hrefl s

/-- Faulting stays in place. -/
theorem Moves.throw (hrefl : ∀ s, R s s) (e : ε) : Moves R (throw e : EStateM ε σ α) :=
  fun s => hrefl s

/-- Sequencing composes the two relations. -/
theorem Moves.bind (htrans : ∀ s t u, R s t → R t u → R s u) {m : EStateM ε σ α}
    {f : α → EStateM ε σ β} (hm : Moves R m) (hf : ∀ a, Moves R (f a)) : Moves R (m >>= f) := by
  intro s
  rw [wp_bind]
  refine wp_mono (hm s) (fun a t hst => ?_) (fun _ _ hst => hst)
  exact wp_mono (hf a t) (fun _ _ htu => htrans _ _ _ hst htu) (fun _ _ htu => htrans _ _ _ hst htu)

/-- Sequencing composes two relations to a third. -/
theorem Moves.comp {S T : σ → σ → Prop} (hfirst : ∀ s t, R s t → T s t)
    (hcomp : ∀ s t u, R s t → S t u → T s u) {m : EStateM ε σ α} {f : α → EStateM ε σ β} (hm : Moves R m)
    (hf : ∀ a, Moves S (f a)) : Moves T (m >>= f) := by
  intro s
  rw [wp_bind]
  refine wp_mono (hm s) (fun a t hst => ?_) fun _ t hst => hfirst s t hst
  exact wp_mono (hf a t) (fun _ _ htu => hcomp _ _ _ hst htu) fun _ _ htu => hcomp _ _ _ hst htu

/-- An observed run that returns relates its two states. -/
theorem Moves.ok {m : EStateM ε σ α} {s t : σ} {a : α} (h : Moves R m) (hm : m s = .ok a t) :
    R s t := by
  have hR := wp_ok (h s) hm
  exact hR

/-- An observed run that faults relates its two states. -/
theorem Moves.error {m : EStateM ε σ α} {s t : σ} {e : ε} (h : Moves R m) (hm : m s = .error e t) :
    R s t := by
  have hR := wp_error (h s) hm
  exact hR

/-- Both branches of a test keep the relation. -/
theorem Moves.ite {c : Prop} [Decidable c] {m n : EStateM ε σ α} (hm : Moves R m)
    (hn : Moves R n) : Moves R (if c then m else n) := by
  split
  · exact hm
  · exact hn

/-- Every run returns, and relates the state it starts from to the state it leaves. -/
def Returns (R : σ → σ → Prop) (m : EStateM ε σ α) : Prop :=
  ∀ s, wp m (fun _ => R s) (fun _ _ => False) s

/-- A run that returns moves. -/
theorem Returns.moves {m : EStateM ε σ α} (h : Returns R m) : Moves R m := fun s =>
  wp_mono (h s) (fun _ _ hR => hR) fun _ _ hF => hF.elim

theorem Returns.pure (hrefl : ∀ s, R s s) (a : α) : Returns R (pure a : EStateM ε σ α) :=
  fun s => hrefl s

theorem Returns.bind (htrans : ∀ s t u, R s t → R t u → R s u) {m : EStateM ε σ α}
    {f : α → EStateM ε σ β} (hm : Returns R m) (hf : ∀ a, Returns R (f a)) : Returns R (m >>= f) := by
  intro s
  rw [wp_bind]
  refine wp_mono (hm s) (fun a t hst => ?_) (fun _ _ hF => hF)
  exact wp_mono (hf a t) (fun _ _ htu => htrans _ _ _ hst htu) (fun _ _ hF => hF)

/-- Sequencing composes two relations to a third. -/
theorem Returns.comp {S T : σ → σ → Prop} (hcomp : ∀ s t u, R s t → S t u → T s u)
    {m : EStateM ε σ α} {f : α → EStateM ε σ β} (hm : Returns R m) (hf : ∀ a, Returns S (f a)) :
    Returns T (m >>= f) := by
  intro s
  rw [wp_bind]
  refine wp_mono (hm s) (fun a t hst => ?_) fun _ _ hF => hF
  exact wp_mono (hf a t) (fun _ _ htu => hcomp _ _ _ hst htu) fun _ _ hF => hF

theorem Returns.ite {c : Prop} [Decidable c] {m n : EStateM ε σ α} (hm : Returns R m)
    (hn : Returns R n) : Returns R (if c then m else n) := by
  split
  · exact hm
  · exact hn

variable {m : EStateM ε σ α} {f : α → EStateM ε σ β} {Q : β → σ → Prop} {E : ε → σ → Prop} {s : σ}

/-- What follows a run that returns starts from a related state. -/
theorem Returns.wp_bind (hm : Returns R m) (hf : ∀ a t, R s t → wp (f a) Q E t) :
    wp (m >>= f) Q E s := by
  rw [Wp.wp_bind]
  exact wp_mono (hm s) hf fun _ _ hF => hF.elim

end Moves

/-- Whatever the computation returns is one of these values. -/
def Yields (answers : List α) (m : EStateM ε σ α) : Prop :=
  ∀ s, wp m (fun a _ => a ∈ answers) (fun _ _ => True) s

section Yields

variable {answers : List α} {m : EStateM ε σ α}

theorem Yields.pure {a : α} (h : a ∈ answers) : Yields answers (pure a : EStateM ε σ α) := fun _ => h

/-- An observed run returns one of the values. -/
theorem Yields.ok {a : α} {s t : σ} (h : Yields answers m) (hm : m s = .ok a t) : a ∈ answers := by
  have hmem := wp_ok (h s) hm
  exact hmem

/-- What comes last decides, given what comes first yields. -/
theorem Yields.after {first : List β} {n : EStateM ε σ β} {f : β → EStateM ε σ α} (hn : Yields first n)
    (hf : ∀ b ∈ first, Yields answers (f b)) : Yields answers (n >>= f) := by
  intro s
  rw [wp_bind]
  exact wp_mono (hn s) (fun b t hb => hf b hb t) fun _ _ _ => trivial

/-- What comes last decides, whatever comes first. -/
theorem Yields.bind {n : EStateM ε σ β} {f : β → EStateM ε σ α} (hf : ∀ b, Yields answers (f b)) :
    Yields answers (n >>= f) := by
  intro s
  rw [wp_bind]
  exact wp_of_run (fun b t _ => hf b t) fun _ _ _ => trivial

/-- Each branch of a test yields where it is taken. -/
theorem Yields.ite {c : Prop} [Decidable c] {n : EStateM ε σ α} (hm : c → Yields answers m)
    (hn : ¬ c → Yields answers n) : Yields answers (if c then m else n) := by
  split
  · exact hm ‹_›
  · exact hn ‹_›

end Yields

/-- The result with its state replaced. -/
def mapState (φ : σ → σ) : EStateM.Result ε σ α → EStateM.Result ε σ α
  | .ok a s => .ok a (φ s)
  | .error e s => .error e (φ s)

@[simp] theorem returned_mapState (φ : σ → σ) (r : EStateM.Result ε σ α) :
    returned (mapState φ r) = returned r := by
  cases r <;> rfl

@[simp] theorem faultOf_mapState (φ : σ → σ) (r : EStateM.Result ε σ α) :
    faultOf (mapState φ r) = faultOf r := by
  cases r <;> rfl

/-- The computation neither reads nor writes what `φ` replaces. -/
def Blind (φ : σ → σ) (m : EStateM ε σ α) : Prop := ∀ s, m (φ s) = mapState φ (m s)

section Blind

variable {φ : σ → σ}

theorem Blind.pure (a : α) : Blind φ (pure a : EStateM ε σ α) := fun _ => rfl

theorem Blind.throw (e : ε) : Blind φ (throw e : EStateM ε σ α) := fun _ => rfl

/-- A sequence is blind when its parts are. -/
theorem Blind.bind {m : EStateM ε σ α} {f : α → EStateM ε σ β} (hm : Blind φ m)
    (hf : ∀ a, Blind φ (f a)) : Blind φ (m >>= f) := by
  intro s
  simp only [Bind.bind, EStateM.bind, hm s]
  cases m s with
  | ok a t => exact hf a t
  | error e t => rfl

theorem Blind.map {m : EStateM ε σ α} (hm : Blind φ m) (f : α → β) : Blind φ (f <$> m) := by
  intro s
  simp only [Functor.map, EStateM.map, hm s]
  cases m s <;> rfl

theorem Blind.ite {c : Prop} [Decidable c] {m n : EStateM ε σ α} (hm : Blind φ m)
    (hn : Blind φ n) : Blind φ (if c then m else n) := by
  split
  · exact hm
  · exact hn

end Blind

end Wp
