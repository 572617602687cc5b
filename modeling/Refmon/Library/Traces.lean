import Refmon.Library.Runs

/-!
# One machine inside another

A machine whose every step, seen through a view of its state, is a step of a second machine: its runs
are runs of the second one, on inputs that depend on the states on the way.
-/

namespace Traces

open Runs

variable {ι σ κ τ : Type*} {step : ι → σ → σ} {step' : κ → τ → τ} {view : σ → τ} {input : ι → σ → κ}

/-- The inputs of the second machine in a run of the first. -/
def trace (step : ι → σ → σ) (input : ι → σ → κ) : List ι → σ → List κ
  | [], _ => []
  | i :: rest, s => input i s :: trace step input rest (step i s)

/-- Each step of the first machine is one of the second. -/
def Embeds (step : ι → σ → σ) (step' : κ → τ → τ) (view : σ → τ) (input : ι → σ → κ) : Prop :=
  ∀ i s, view (step i s) = step' (input i s) (view s)

/-- The run of the first machine is a run of the second. -/
theorem Embeds.run (h : Embeds step step' view input) (inputs : List ι) (s : σ) :
    view (run step inputs s) = Runs.run step' (trace step input inputs s) (view s) := by
  induction inputs generalizing s with
  | nil => rfl
  | cons i inputs ih => rw [run_cons, ih, trace, run_cons, h]

/-- A condition on the steps of the second machine is one on the steps of the first. -/
theorem Embeds.everyStep (h : Embeds step step' view input) {C : ι → σ → Prop} {D : κ → τ → Prop}
    (hC : ∀ i s, C i s → D (input i s) (view s)) {inputs : List ι} {s : σ}
    (hevery : EveryStep step C inputs s) : EveryStep step' D (trace step input inputs s) (view s) := by
  induction inputs generalizing s with
  | nil => trivial
  | cons i inputs ih =>
    refine ⟨hC i s hevery.1, ?_⟩
    rw [← h]
    exact ih hevery.2

/-- Steps of the first machine are counted as those of the second. -/
theorem Embeds.countSteps (h : Embeds step step' view input) {C : ι → σ → Bool} {D : κ → τ → Bool}
    (hC : ∀ i s, C i s = D (input i s) (view s)) (inputs : List ι) (s : σ) :
    countSteps step C inputs s = Runs.countSteps step' D (trace step input inputs s) (view s) := by
  induction inputs generalizing s with
  | nil => rfl
  | cons i inputs ih => rw [Runs.countSteps, ih, trace, Runs.countSteps, hC, h]

/-- The beginning of a run of the second machine belongs to a beginning of the run of the first. -/
theorem trace_eq_append {inputs : List ι} {s : σ} {first rest : List κ}
    (h : trace step input inputs s = first ++ rest) :
    ∃ first' rest', inputs = first' ++ rest' ∧ trace step input first' s = first := by
  induction first generalizing inputs s with
  | nil => exact ⟨[], inputs, rfl, rfl⟩
  | cons k first ih =>
    cases inputs with
    | nil => cases h
    | cons i inputs =>
      obtain ⟨hhead, htail⟩ := List.cons.inj h
      obtain ⟨first', rest', hinputs, hfirst⟩ := ih htail
      exact ⟨i :: first', rest', by rw [hinputs, List.cons_append], by rw [trace, hhead, hfirst]⟩

end Traces
