import Refmon.Library.Runs
import Mathlib.Logic.Function.Basic

/-!
# Return probes with a fixed pool of instances

A return probe owns a number of instances. A call of the probed function that finds a free one
holds it until the entry handler declines, or until the call returns and the return handler has
run; a call that finds none runs as if the probe were not there. The calls of any number of
tasks interleave: a run is a list of events, and an event that cannot happen changes nothing.
-/

namespace InstancePool

open Runs

/-- Where a call of the probed function stands. -/
inductive Phase (ρ : Type*)
  /-- not entered yet -/
  | outside
  /-- it holds an instance, and the entry handler has not answered -/
  | deciding
  /-- the entry handler has accepted it, and the instance is held until it returns -/
  | armed
  /-- it runs without the probe -/
  | unprobed
  | returned (value : ρ)
deriving DecidableEq

/-- A probe on a function: the size of its pool, the calls that the entry handler accepts, and
what each call returns with the return handler and without it. -/
structure ReturnProbe (κ ρ : Type*) where
  maxactive : ℕ
  accepts : κ → Bool
  hooked : κ → ρ
  plain : κ → ρ

/-- A call enters the function, its entry handler answers, or it returns. -/
inductive Event (κ : Type*)
  | enter (call : κ)
  | decide (call : κ)
  | leave (call : κ)

/-- The call that an event belongs to. -/
def Event.call {κ : Type*} : Event κ → κ
  | .enter call => call
  | .decide call => call
  | .leave call => call

/-- The calls that hold an instance, and where each call stands. -/
structure State (κ ρ : Type*) where
  holders : List κ
  phase : κ → Phase ρ

variable {κ ρ : Type*} [DecidableEq κ]

/-- No call has been entered. -/
def idle : State κ ρ := ⟨[], fun _ => .outside⟩

/-- Move a call to another phase. -/
def State.move (s : State κ ρ) (call : κ) (phase : Phase ρ) : State κ ρ :=
  { s with phase := Function.update s.phase call phase }

/-- Give the instance of a call back. -/
def State.release (s : State κ ρ) (call : κ) : State κ ρ :=
  { s with holders := s.holders.erase call }

/-- An instance is free. -/
def State.HasFree (probe : ReturnProbe κ ρ) (s : State κ ρ) : Prop :=
  s.holders.length < probe.maxactive

instance (probe : ReturnProbe κ ρ) (s : State κ ρ) : Decidable (s.HasFree probe) :=
  inferInstanceAs (Decidable (_ < _))

/-- One event. -/
def step (probe : ReturnProbe κ ρ) : Event κ → State κ ρ → State κ ρ
  | .enter call, s =>
    match s.phase call with
    | .outside =>
      if s.HasFree probe then { s with holders := call :: s.holders }.move call .deciding
      else s.move call .unprobed
    | _ => s
  | .decide call, s =>
    match s.phase call with
    | .deciding =>
      if probe.accepts call then s.move call .armed else (s.release call).move call .unprobed
    | _ => s
  | .leave call, s =>
    match s.phase call with
    | .armed => (s.release call).move call (.returned (probe.hooked call))
    | .unprobed => s.move call (.returned (probe.plain call))
    | _ => s

variable {probe : ReturnProbe κ ρ} {call : κ}

/-- The phases of a call that is intercepted. -/
def Intercepted (probe : ReturnProbe κ ρ) (call : κ) (s : State κ ρ) : Prop :=
  s.phase call = .deciding ∨ s.phase call = .armed ∨ s.phase call = .returned (probe.hooked call)

/-- The phases of a call that runs without the probe. -/
def Missed (probe : ReturnProbe κ ρ) (call : κ) (s : State κ ρ) : Prop :=
  s.phase call = .unprobed ∨ s.phase call = .returned (probe.plain call)

@[simp] theorem phase_move_self (s : State κ ρ) (call : κ) (phase : Phase ρ) :
    (s.move call phase).phase call = phase := Function.update_self _ _ _

@[simp] theorem phase_move_of_ne {other : κ} (h : call ≠ other) (s : State κ ρ) (phase : Phase ρ) :
    (s.move other phase).phase call = s.phase call := Function.update_of_ne h _ _

@[simp] theorem phase_release (s : State κ ρ) (other : κ) :
    (s.release other).phase call = s.phase call := rfl

/-- The events of other calls leave a call where it stands. -/
theorem phase_step_of_ne {event : Event κ} (h : call ≠ event.call) (s : State κ ρ) :
    (step probe event s).phase call = s.phase call := by
  cases event with
  | enter other =>
    rw [step]
    split
    · split
      · exact phase_move_of_ne h _ _
      · exact phase_move_of_ne h _ _
    · rfl
  | decide other =>
    rw [step]
    split
    · split
      · exact phase_move_of_ne h _ _
      · exact phase_move_of_ne h _ _
    · rfl
  | leave other =>
    rw [step]
    split
    · exact phase_move_of_ne h _ _
    · exact phase_move_of_ne h _ _
    · rfl

/-- A call that found a free instance, and that the entry handler accepts, stays intercepted. -/
theorem Intercepted.step {s : State κ ρ} (haccepts : probe.accepts call = true)
    (h : Intercepted probe call s) (event : Event κ) :
    Intercepted probe call (step probe event s) := by
  by_cases hcall : call = event.call
  · unfold Intercepted at h ⊢
    cases event with
    | enter other =>
      have hsame : call = other := hcall
      subst hsame
      rcases h with h | h | h <;> simp [InstancePool.step, h]
    | decide other =>
      have hsame : call = other := hcall
      subst hsame
      rcases h with h | h | h <;> simp [InstancePool.step, h, haccepts]
    | leave other =>
      have hsame : call = other := hcall
      subst hsame
      rcases h with h | h | h <;> simp [InstancePool.step, h]
  · unfold Intercepted
    rw [phase_step_of_ne hcall]
    exact h

/-- A call that found no free instance is never intercepted. -/
theorem Missed.step {s : State κ ρ} (h : Missed probe call s) (event : Event κ) :
    Missed probe call (step probe event s) := by
  by_cases hcall : call = event.call
  · unfold Missed at h ⊢
    cases event with
    | enter other =>
      have hsame : call = other := hcall
      subst hsame
      rcases h with h | h <;> simp [InstancePool.step, h]
    | decide other =>
      have hsame : call = other := hcall
      subst hsame
      rcases h with h | h <;> simp [InstancePool.step, h]
    | leave other =>
      have hsame : call = other := hcall
      subst hsame
      rcases h with h | h <;> simp [InstancePool.step, h]
  · unfold Missed
    rw [phase_step_of_ne hcall]
    exact h

/-- The entry of a call decides whether it is intercepted. -/
theorem enter_cases (probe : ReturnProbe κ ρ) {s : State κ ρ} (h : s.phase call = .outside) :
    s.HasFree probe ∧ Intercepted probe call (step probe (.enter call) s) ∨
      ¬ s.HasFree probe ∧ Missed probe call (step probe (.enter call) s) := by
  rw [step, h]
  dsimp only
  by_cases hfree : s.HasFree probe
  · rw [if_pos hfree]
    exact Or.inl ⟨hfree, Or.inl (phase_move_self _ _ _)⟩
  · rw [if_neg hfree]
    exact Or.inr ⟨hfree, Or.inl (phase_move_self _ _ _)⟩

/-- Whatever happens after its entry, a call that the entry handler accepts returns what the
return handler makes of it if it found a free instance, and its own value if not. -/
theorem returned_iff_free {s : State κ ρ} {value : ρ} (haccepts : probe.accepts call = true)
    (houtside : s.phase call = .outside) (later : List (Event κ))
    (hreturned : (run (step probe) later (step probe (.enter call) s)).phase call = .returned value) :
    value = if s.HasFree probe then probe.hooked call else probe.plain call := by
  rcases enter_cases probe houtside with ⟨hfree, hentered⟩ | ⟨hfull, hentered⟩
  · have hlater : Intercepted probe call (run (step probe) later (step probe (.enter call) s)) :=
      run_preserves _ (fun event _ h => h.step haccepts event) hentered
    rw [if_pos hfree]
    unfold Intercepted at hlater
    rw [hreturned] at hlater
    simpa using hlater
  · have hlater : Missed probe call (run (step probe) later (step probe (.enter call) s)) :=
      run_preserves _ (fun event _ h => h.step event) hentered
    rw [if_neg hfull]
    unfold Missed at hlater
    rw [hreturned] at hlater
    simpa using hlater

/-- A call that has not been entered stays outside until it is. -/
theorem outside_step {s : State κ ρ} {event : Event κ} (h : s.phase call = .outside)
    (hevent : event ≠ .enter call) : (step probe event s).phase call = .outside := by
  by_cases hcall : call = event.call
  · cases event with
    | enter other => exact absurd (congrArg Event.enter hcall.symm) hevent
    | decide other =>
      have hsame : call = other := hcall
      subst hsame
      simp [step, h]
    | leave other =>
      have hsame : call = other := hcall
      subst hsame
      simp [step, h]
  · rw [phase_step_of_ne hcall]
    exact h

/-- In a run in which every entry of the calls of interest finds a free instance, those of them
that have returned were all handled by the return handler. -/
theorem returned_of_always_free (interest : κ → Prop) {events : List (Event κ)}
    (haccepts : ∀ call, interest call → probe.accepts call = true)
    (hfree : EveryStep (step probe)
      (fun event s => ∀ call, interest call → event = .enter call → s.HasFree probe) events idle)
    {value : ρ} (hcall : interest call)
    (hreturned : (run (step probe) events idle).phase call = .returned value) :
    value = probe.hooked call := by
  have hrun : ∀ call, interest call → (run (step probe) events idle).phase call = .outside ∨
      Intercepted probe call (run (step probe) events idle) := by
    apply run_invariant (I := fun s => ∀ call, interest call →
      s.phase call = .outside ∨ Intercepted probe call s) (step probe) _ hfree fun _ _ => Or.inl rfl
    intro event s hfree hs call hcall
    rcases hs call hcall with houtside | hintercepted
    · by_cases hevent : event = .enter call
      · rw [hevent]
        rcases enter_cases probe houtside with ⟨-, hentered⟩ | ⟨hfull, -⟩
        · exact Or.inr hentered
        · exact absurd (hfree call hcall hevent) hfull
      · exact Or.inl (outside_step houtside hevent)
    · exact Or.inr (hintercepted.step (haccepts call hcall) event)
  have hcases := hrun call hcall
  unfold Intercepted at hcases
  rw [hreturned] at hcases
  simpa using hcases

end InstancePool
