import Mathlib.Tactic.Common

/-!
# Works that schedule works

A queue of works, each of which changes the world, may schedule further works behind the ones that
wait, and may crash the worker. A work that schedules nothing leaves a queue that is done; works
that each schedule one more never come to an end.
-/

namespace WorkQueue

variable {ω σ : Type*}

/-- The works that wait, the number of those that were run, and the world. -/
structure State (ω σ : Type*) where
  pending : List ω
  runs : ℕ
  world : σ

section

variable (work : ω → σ → Option (List ω × σ))

/-- Run the first work that waits, if there is one. -/
def step (q : State ω σ) : Option (State ω σ) :=
  match q.pending with
  | [] => some q
  | first :: rest =>
    (work first q.world).map fun (more, world) => ⟨rest ++ more, q.runs + 1, world⟩

/-- The state after so many steps, unless a work crashes. -/
def afterSteps : ℕ → State ω σ → Option (State ω σ)
  | 0, q => some q
  | n + 1, q => (step work q).bind (afterSteps n)

end

variable {work : ω → σ → Option (List ω × σ)}

/-- A queue without works stays as it is. -/
theorem after_idle (n runs : ℕ) (world : σ) :
    afterSteps work n ⟨[], runs, world⟩ = some ⟨[], runs, world⟩ := by
  induction n with
  | zero => rfl
  | succ n ih => exact ih

/-- The first step runs the first work, and what it schedules waits behind the rest. -/
theorem after_succ {first : ω} {world world' : σ} {more : List ω}
    (h : work first world = some (more, world')) (n runs : ℕ) (rest : List ω) :
    afterSteps work (n + 1) ⟨first :: rest, runs, world⟩ =
      afterSteps work n ⟨rest ++ more, runs + 1, world'⟩ := by
  rw [afterSteps, step]
  dsimp only
  rw [h]
  rfl

/-- A work that schedules nothing is run once. -/
theorem after_once {first : ω} {world world' : σ} (h : work first world = some ([], world')) {n : ℕ}
    (hn : 0 < n) (runs : ℕ) : afterSteps work n ⟨[first], runs, world⟩ = some ⟨[], runs + 1, world'⟩ := by
  cases n with
  | zero => omega
  | succ n =>
    rw [after_succ h]
    exact after_idle n _ _

/-- A work that crashes ends the run. -/
theorem after_crash {first : ω} {world : σ} (h : work first world = none) {n : ℕ} (hn : 0 < n)
    (rest : List ω) (runs : ℕ) : afterSteps work n ⟨first :: rest, runs, world⟩ = none := by
  cases n with
  | zero => omega
  | succ n =>
    rw [afterSteps, step]
    dsimp only
    rw [h]
    rfl

/-- Works that each schedule one more are run for ever. -/
theorem after_endless {good : ω → σ → Prop}
    (hwork : ∀ first world, good first world →
      ∃ next world', work first world = some ([next], world') ∧ good next world')
    {first : ω} {world : σ} (h : good first world) (n runs : ℕ) :
    ∃ next world', afterSteps work n ⟨[first], runs, world⟩ = some ⟨[next], runs + n, world'⟩ ∧
      good next world' := by
  induction n generalizing first world runs with
  | zero => exact ⟨first, world, rfl, h⟩
  | succ n ih =>
    obtain ⟨next, world', hrun, hnext⟩ := hwork first world h
    obtain ⟨last, world'', hafter, hlast⟩ := ih hnext (runs + 1)
    refine ⟨last, world'', ?_, hlast⟩
    rw [after_succ hrun, List.nil_append, hafter, Nat.add_assoc, Nat.add_comm 1 n]

end WorkQueue
