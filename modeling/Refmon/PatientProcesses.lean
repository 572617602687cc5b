import Refmon.ConcurrentLoad

/-!
# Processes that wait for the load

Beside processes that wait until the numbers are published, and until the probes are registered,
a load ends as it should. A process that does not wait finds the number zero, or leaves the state
`ON` without probes.
-/

namespace Refmon

open Wp Runs

variable {δ : Type}

/-- In every interleaving of a load with patient processes, whoever reads the numbers reads those
of entries with the handlers of their commands; and when all steps of the load have been taken,
the five probes are all enabled exactly in the states `ON` and `REC-ON`. -/
theorem load_safe_beside_patient {env : Env δ} {k : Kernel} (hfresh : Fresh k)
    (events : List (LoadEvent δ))
    (hanswers : EveryStep (Loading.step env) Loading.Answers events ⟨k, loadSteps⟩)
    (hpatient : EveryStep (Loading.step env) (Loading.Patient env) events ⟨k, loadSteps⟩) :
    EveryStep (Loading.step env) (fun event s => event = .read → s.Readable → s.NumbersMatch env) events
        ⟨k, loadSteps⟩ ∧
      ((run (Loading.step env) events ⟨k, loadSteps⟩).remaining = [] →
        ((∀ probe, (run (Loading.step env) events ⟨k, loadSteps⟩).kernel.core.enabled probe = true) ↔
          (run (Loading.step env) events ⟨k, loadSteps⟩).kernel.core.theInstance.state = .ON ∨
          (run (Loading.step env) events ⟨k, loadSteps⟩).kernel.core.theInstance.state = .REC_ON)) := by
  have hboth := everyStep_and _ hanswers hpatient
  have hsound (first rest : List (LoadEvent δ)) (hsplit : events = first ++ rest) :
      (run (Loading.step env) first ⟨k, loadSteps⟩).Sound env k.core.syscalls := by
    rw [hsplit, everyStep_append] at hboth
    exact run_invariant _ (fun event s hC hs => hs.step event hC.1 hC.2) hboth.1 (sound_start hfresh)
  constructor
  · rw [everyStep_iff] at hpatient ⊢
    intro first event rest hsplit hread hreadable
    have hassigned := hpatient first event rest hsplit
    rw [hread] at hassigned
    exact (hsound first (event :: rest) hsplit).numbersMatch (hassigned hreadable)
  · intro hdone
    have hlast := hsound events [] (List.append_nil _).symm
    have hinit : .initInstance ∉ (run (Loading.step env) events ⟨k, loadSteps⟩).remaining := by
      rw [hdone]
      exact List.not_mem_nil
    obtain ⟨⟨hon, hoff⟩, hvalid⟩ := hlast.agrees hinit
    constructor
    · intro hall
      by_contra hnot
      have hdisabled := hoff (by unfold RefmonState.Valid at hvalid; tauto) .vfsOpen
      rw [hall .vfsOpen] at hdisabled
      cases hdisabled
    · exact hon

/-- A load that succeeds, with nobody beside it, takes all its steps. -/
theorem loading_alone {env : Env δ} {k t : Kernel} (h : initModule env k = .ok 0 t) :
    run (Loading.step env) (List.replicate loadSteps.length .load) ⟨k, loadSteps⟩ = ⟨t, []⟩ := by
  have hsteps (remaining : List LoadStep) (k : Kernel) (hrun : runSteps env remaining k = .ok 0 t) :
      run (Loading.step env) (List.replicate remaining.length .load) ⟨k, remaining⟩ = ⟨t, []⟩ := by
    induction remaining generalizing k with
    | nil =>
      cases hrun
      rfl
    | cons loadStep rest ih =>
      obtain ⟨m, haction, hrest⟩ := runSteps_cons_ok hrun
      rw [List.length_cons, List.replicate_succ, run_cons, Loading.step]
      dsimp only
      rw [haction]
      exact ih m hrest
  exact hsteps loadSteps k (runSteps_of_initModule h)

section Sample

/-- The kernel of the sample load. -/
def loadEnv : Env Unit := rootOnly.calm ciaoSha256

/-- So many steps of the load. -/
def loads (n : ℕ) : List (LoadEvent Unit) := List.replicate n .load

/-- The load up to the creation of the first proc file. -/
def readableLoad : Loading := run (Loading.step loadEnv) (loads 3) ⟨inserted, loadSteps⟩

/-- Root sets the state `ON` while no probe is registered yet, so that none can be enabled. -/
def setOnEarly : Event Unit :=
  ⟨{ loadEnv with
      enableKretprobe := fun _ => -EINVAL
      disableKretprobe := fun _ => -EINVAL },
    .setState (userString REFMON_STATE_STRING_ON)⟩

/-- The number of `set_state` is read and invoked before the probes are registered. -/
def earlyEvents : List (LoadEvent Unit) := loads 14 ++ [.read, .invoke 0 setOnEarly] ++ loads 5

/-- The load with that call, after its last step. -/
def earlyLoad : Loading := run (Loading.step loadEnv) earlyEvents ⟨inserted, loadSteps⟩

/-- What the steps of a load meet everywhere holds along them. -/
theorem loads_meet {C : LoadEvent Unit → Loading → Prop} (h : ∀ s, C .load s) (n : ℕ) (s : Loading) :
    EveryStep (Loading.step loadEnv) C (loads n) s := by
  apply everyStep_of_forall
  intro event hmem t
  rw [List.eq_of_mem_replicate hmem]
  exact h t

/-- A process that reads the numbers when their file has just appeared reads one whose entry has
another function; and a process that sets the state `ON` before the probes are registered ends up,
the load being complete, in the state `ON` without a single probe. -/
theorem impatient_processes_see_load :
    (readableLoad.Readable ∧ ¬ readableLoad.NumbersMatch loadEnv) ∧
      EveryStep (Loading.step loadEnv) Loading.Answers earlyEvents ⟨inserted, loadSteps⟩ ∧
      earlyLoad.remaining = [] ∧ earlyLoad.kernel.core.theInstance.state = .ON ∧
      ∀ probe, earlyLoad.kernel.core.enabled probe = false := by
  have hunregistered (probe : Probe) : (run (Loading.step loadEnv) (loads 14)
      ⟨inserted, loadSteps⟩).kernel.core.registered probe = false := by
    cases probe <;> decide +kernel
  apply And.intro
  · apply And.intro
    · unfold Loading.Readable
      decide +kernel
    · intro hmatch
      have hword := hmatch .setState
      revert hword
      decide +kernel
  · refine ⟨?_, by decide +kernel, by decide +kernel, fun probe => ?_⟩
    · unfold earlyEvents
      rw [everyStep_append, everyStep_append]
      refine ⟨⟨loads_meet (fun _ => trivial) 14 _, trivial, fun probe => ?_, trivial⟩,
        loads_meet (fun _ => trivial) 5 _⟩
      change (-EINVAL = 0 ↔ _ = true) ∧ (-EINVAL = 0 ↔ _ = true)
      dsimp only [Loading.step]
      rw [hunregistered probe]
      decide
    · cases probe <;> decide +kernel

/-- Root sets the state `ON` when the load is complete. -/
def lateEvents : List (LoadEvent Unit) :=
  loads 19 ++ [.read, .invoke 0 (rootSetState rootOnly REFMON_STATE_STRING_ON)]

/-- The load with that call. -/
def lateLoad : Loading := run (Loading.step loadEnv) lateEvents ⟨inserted, loadSteps⟩

/-- The theorem for that call: the probes agree with the state, which is `ON`. -/
theorem load_safe_beside_patient_setOn :
    lateLoad.kernel.core.theInstance.state = .ON ∧
      ((∀ probe, lateLoad.kernel.core.enabled probe = true) ↔
        lateLoad.kernel.core.theInstance.state = .ON ∨ lateLoad.kernel.core.theInstance.state = .REC_ON) := by
  have hregistered (probe : Probe) : (run (Loading.step loadEnv) (loads 19)
      ⟨inserted, loadSteps⟩).kernel.core.registered probe = true := by
    cases probe <;> decide +kernel
  have hanswers : EveryStep (Loading.step loadEnv) Loading.Answers lateEvents ⟨inserted, loadSteps⟩ := by
    unfold lateEvents
    rw [everyStep_append]
    refine ⟨loads_meet (fun _ => trivial) 19 _, trivial, fun probe => ?_, trivial⟩
    dsimp only [Loading.step]
    rw [hregistered probe]
    exact ⟨iff_of_true rfl rfl, iff_of_true rfl rfl⟩
  have hpatient : EveryStep (Loading.step loadEnv) (Loading.Patient loadEnv) lateEvents
      ⟨inserted, loadSteps⟩ := by
    unfold lateEvents
    rw [everyStep_append]
    refine ⟨loads_meet (fun _ => trivial) 19 _, fun _ i => ?_, fun _ state hrequest => ?_, trivial⟩
    · revert i
      decide +kernel
    · have hon := rootSetState_requests (show stateToString .ON = some REFMON_STATE_STRING_ON from rfl)
        hrequest
      rw [hon]
      refine ⟨Or.inr (Or.inl rfl), fun _ probe => ?_⟩
      dsimp only [Loading.step]
      exact hregistered probe
  have hsafe := load_safe_beside_patient inserted_fresh lateEvents hanswers hpatient
  rw [← lateLoad] at hsafe
  exact ⟨by decide +kernel, hsafe.2 (by decide +kernel)⟩

end Sample

end Refmon
