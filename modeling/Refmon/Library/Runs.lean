import Mathlib.Order.Basic
import Mathlib.Tactic.Common

/-!
# Runs of a deterministic state machine

A machine is a step function on states, driven by a list of inputs. `EveryStep C` says that
each step of a run meets a condition on the input and the state before it. `Reach S C` are the
states reached from a start in `S` by steps that meet `C`.
-/

namespace Runs

variable {ι σ : Type*} (step : ι → σ → σ)

/-- The state after the inputs, in order. -/
def run : List ι → σ → σ
  | [], s => s
  | i :: rest, s => run rest (step i s)

/-- Each input, at the state it is given to, meets the condition. -/
def EveryStep (C : ι → σ → Prop) : List ι → σ → Prop
  | [], _ => True
  | i :: rest, s => C i s ∧ EveryStep C rest (step i s)

/-- How many of the steps meet the condition. -/
def countSteps (C : ι → σ → Bool) : List ι → σ → ℕ
  | [], _ => 0
  | i :: rest, s => (C i s).toNat + countSteps C rest (step i s)

@[simp] theorem run_nil (s : σ) : run step [] s = s := rfl

@[simp] theorem run_cons (i : ι) (rest : List ι) (s : σ) :
    run step (i :: rest) s = run step rest (step i s) := rfl

@[simp] theorem everyStep_nil (C : ι → σ → Prop) (s : σ) : EveryStep step C [] s := trivial

@[simp] theorem everyStep_cons (C : ι → σ → Prop) (i : ι) (rest : List ι) (s : σ) :
    EveryStep step C (i :: rest) s ↔ C i s ∧ EveryStep step C rest (step i s) := Iff.rfl

theorem run_append (first rest : List ι) (s : σ) :
    run step (first ++ rest) s = run step rest (run step first s) := by
  induction first generalizing s with
  | nil => rfl
  | cons i first ih => exact ih (step i s)

/-- A condition holds along a run when it holds along both parts. -/
theorem everyStep_append (C : ι → σ → Prop) (first rest : List ι) (s : σ) :
    EveryStep step C (first ++ rest) s ↔
      EveryStep step C first s ∧ EveryStep step C rest (run step first s) := by
  induction first generalizing s with
  | nil => simp
  | cons i first ih => simp [ih, and_assoc]

/-- A condition holds along a run exactly when it holds at each of its steps. -/
theorem everyStep_iff (C : ι → σ → Prop) (inputs : List ι) (s : σ) :
    EveryStep step C inputs s ↔
      ∀ first i rest, inputs = first ++ i :: rest → C i (run step first s) := by
  constructor
  · intro h first i rest hsplit
    rw [hsplit, everyStep_append, everyStep_cons] at h
    exact h.2.1
  · intro h
    induction inputs generalizing s with
    | nil => trivial
    | cons i inputs ih =>
      apply And.intro
      · exact h [] i inputs rfl
      · apply ih
        intro first j rest hsplit
        exact h (i :: first) j rest (by rw [hsplit, List.cons_append])

/-- A condition that the inputs meet in every state holds along their run. -/
theorem everyStep_of_forall {C : ι → σ → Prop} {inputs : List ι} (h : ∀ i ∈ inputs, ∀ s, C i s) (s : σ) :
    EveryStep step C inputs s := by
  rw [everyStep_iff]
  intro first i rest hsplit
  apply h
  rw [hsplit]
  simp

/-- Two conditions hold along a run when each does. -/
theorem everyStep_and {C D : ι → σ → Prop} {inputs : List ι} {s : σ} (hC : EveryStep step C inputs s)
    (hD : EveryStep step D inputs s) : EveryStep step (fun i t => C i t ∧ D i t) inputs s := by
  induction inputs generalizing s with
  | nil => trivial
  | cons i inputs ih => exact ⟨⟨hC.1, hD.1⟩, ih hC.2 hD.2⟩

/-- Two conditions that agree wherever an invariant holds hold along the same runs. -/
theorem everyStep_congr {C D : ι → σ → Prop} {I : σ → Prop} (hstep : ∀ i s, I s → I (step i s))
    (hiff : ∀ i s, I s → (C i s ↔ D i s)) (inputs : List ι) {s : σ} (hs : I s) :
    EveryStep step C inputs s ↔ EveryStep step D inputs s := by
  induction inputs generalizing s with
  | nil => exact Iff.rfl
  | cons i inputs ih =>
    rw [everyStep_cons, everyStep_cons]
    exact and_congr (hiff i s hs) (ih (hstep i s hs))

/-- What the steps that meet a condition preserve holds at the end of a run of such steps. -/
theorem run_invariant {C : ι → σ → Prop} {I : σ → Prop} {inputs : List ι} {s : σ}
    (hstep : ∀ i t, C i t → I t → I (step i t)) (hevery : EveryStep step C inputs s) (hstart : I s) :
    I (run step inputs s) := by
  induction inputs generalizing s with
  | nil => exact hstart
  | cons i inputs ih => exact ih hevery.2 (hstep i s hevery.1 hstart)

/-- What every step preserves holds at the end of a run. -/
theorem run_preserves {I : σ → Prop} {inputs : List ι} {s : σ} (hstep : ∀ i t, I t → I (step i t))
    (hstart : I s) : I (run step inputs s) := by
  induction inputs generalizing s with
  | nil => exact hstart
  | cons i inputs ih => exact ih (hstep i s hstart)

/-- A quantity that rises by one at most in some steps, and in no others, rises no more than there are
such steps. -/
theorem run_le_countSteps {I : σ → Prop} {f : σ → ℕ} {C : ι → σ → Bool} (hI : ∀ i s, I s → I (step i s))
    (hstep : ∀ i s, I s → f (step i s) ≤ f s + (C i s).toNat) (inputs : List ι) {s : σ} (hs : I s) :
    f (run step inputs s) ≤ f s + countSteps step C inputs s := by
  induction inputs generalizing s with
  | nil => exact Nat.le_refl _
  | cons i inputs ih =>
    calc f (run step inputs (step i s))
        ≤ f (step i s) + countSteps step C inputs (step i s) := ih (hI i s hs)
      _ ≤ f s + (C i s).toNat + countSteps step C inputs (step i s) := Nat.add_le_add_right (hstep i s hs) _
      _ = f s + countSteps step C (i :: inputs) s := Nat.add_assoc _ _ _

/-- The states reached from `S` by steps that meet `C`. -/
inductive Reach (S : σ → Prop) (C : ι → σ → Prop) : σ → Prop
  | start {s : σ} : S s → Reach S C s
  | next {s : σ} (i : ι) : Reach S C s → C i s → Reach S C (step i s)

variable {step} {S : σ → Prop} {C : ι → σ → Prop}

/-- An invariant of the start and of the steps holds of every reached state. -/
theorem Reach.invariant {I : σ → Prop} {s : σ} (h : Reach step S C s) (hstart : ∀ t, S t → I t)
    (hstep : ∀ i t, C i t → I t → I (step i t)) : I s := by
  induction h with
  | start hs => exact hstart _ hs
  | next i _ hC ih => exact hstep i _ hC ih

/-- Admitting more steps reaches more states. -/
theorem Reach.mono {C' : ι → σ → Prop} {s : σ} (h : Reach step S C s) (hle : ∀ i t, C i t → C' i t) :
    Reach step S C' s := by
  induction h with
  | start hs => exact .start hs
  | next i _ hC ih => exact ih.next i (hle i _ hC)

/-- A run of admitted steps from a reached state ends in one. -/
theorem Reach.run {inputs : List ι} {s : σ} (h : Reach step S C s)
    (hevery : EveryStep step C inputs s) : Reach step S C (run step inputs s) := by
  apply run_invariant step _ hevery h
  intro i t hC ht
  exact ht.next i hC

/-- A quantity that never drops ends a run where it began exactly when no step raises it. -/
theorem run_eq_iff {β : Type*} [PartialOrder β] {f : σ → β} (hmono : ∀ i s, f s ≤ f (step i s))
    (hkeeps : ∀ i s, f (step i s) = f s ↔ C i s) (inputs : List ι) (s : σ) :
    f (Runs.run step inputs s) = f s ↔ EveryStep step C inputs s := by
  have hrun (inputs : List ι) (s : σ) : f s ≤ f (Runs.run step inputs s) := by
    induction inputs generalizing s with
    | nil => exact le_rfl
    | cons i inputs ih => exact (hmono i s).trans (ih _)
  induction inputs generalizing s with
  | nil => simp
  | cons i inputs ih =>
    constructor
    · intro h
      have hstep : f (step i s) = f s := le_antisymm ((hrun inputs _).trans h.le) (hmono i s)
      exact ⟨(hkeeps i s).mp hstep, (ih _).mp (h.trans hstep.symm)⟩
    · rintro ⟨hstep, hrest⟩
      exact ((ih _).mpr hrest).trans ((hkeeps i s).mpr hstep)

end Runs
