import Refmon.Authorisation

/-!
# A failed call has no effect

Whatever allocation or lookup fails in it, a call that returns an error leaves the instance and the
probes as they were, and every call that returns has released the lock once. Over a run the lock is
therefore released as often as calls return.
-/

namespace Refmon

open Wp Runs

variable {δ : Type}

/-- The instance and the probes are as before. -/
structure Unaffected (k t : Kernel) : Prop where
  state : t.core.theInstance.state = k.core.theInstance.state
  registry : t.core.theInstance.registry = k.core.theInstance.registry
  password : t.core.theInstance.password = k.core.theInstance.password
  enabled : t.core.enabled = k.core.enabled

/-- Where nothing that lasts has changed, neither have these. -/
theorem unaffected_of_core {k t : Kernel} (h : t.core = k.core) : Unaffected k t := by
  constructor
  all_goals rw [h]

/-- A call that returns has released the lock once. -/
theorem released_of_result {e : Event δ} {k t : Kernel} {ret : ℤ} (h : e.result k = .ok ret t) :
    Released k t :=
  (wp_ok (wp_call e k) h).1

/-- In a run whose calls all return, the lock is released once for each call. -/
theorem run_unlocks {events : List (Event δ)} {k : Kernel}
    (h : EveryStep step (fun e s => ∃ ret t, e.result s = .ok ret t) events k) :
    (run step events k).aux.unlocks = k.aux.unlocks + events.length := by
  induction events generalizing k with
  | nil => rfl
  | cons e rest ih =>
    obtain ⟨⟨ret, t, hrun⟩, hrest⟩ := h
    have hstep : step e k = t := by rw [step, hrun, after_ok]
    rw [run_cons, ih hrest, hstep, (released_of_result hrun).2, List.length_cons]
    omega

/-- A call that returns a non-zero value leaves the state, the registry, the password and the probes
as they were; and whatever it returns, it has released the lock exactly once. -/
theorem failed_call_unaffected (e : Event δ) {k t : Kernel} {ret : ℤ} (h : e.result k = .ok ret t) :
    (ret ≠ 0 → Unaffected k t) ∧ t.aux.unlocks = k.aux.unlocks + 1 ∧ t.lock = false := by
  obtain ⟨hlock, hunlocks⟩ := released_of_result h
  refine ⟨fun hret => ?_, hunlocks, hlock⟩
  rcases (wp_ok (wp_call e k) h).2 with ⟨-, hcore⟩ | ⟨hzero, -⟩
  · exact unaffected_of_core hcore
  · exact absurd hzero hret

/-- The theorem on the removal of a path that is not registered. -/
theorem failed_call_unaffected_rm :
    ∃ t, (rootRm rootOnly (lit "/")).result (bootedRecOn rootOnly) = .ok (-ENOENT) t ∧
      Unaffected (bootedRecOn rootOnly) t ∧ t.aux.unlocks = (bootedRecOn rootOnly).aux.unlocks + 1 := by
  have hrun : (rootRm rootOnly (lit "/")).result (bootedRecOn rootOnly) =
      .ok (-ENOENT) (after ((rootRm rootOnly (lit "/")).result (bootedRecOn rootOnly))) :=
    returned_eq_some (by decide +kernel)
  obtain ⟨hunaffected, hunlocks, -⟩ := failed_call_unaffected _ hrun
  exact ⟨_, hrun, hunaffected (by decide), hunlocks⟩

end Refmon
