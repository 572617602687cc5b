import Refmon.StateValidity

/-!
# The state and the probes

`do_set_state` writes the state and then asks for each probe to be enabled or disabled, without
looking at the answers. The probes agree with the state after a call exactly when every probe
that was not already in the mode of the new state was switched successfully.
-/

namespace Refmon

open Wp Runs

variable {δ : Type} {sha256 : List UInt8 → Digest}

/-- All probes are enabled in the states `ON` and `REC-ON`, and none in `OFF` and `REC-OFF`. -/
def Agrees (core : Core) : Prop :=
  (core.theInstance.state = .ON ∨ core.theInstance.state = .REC_ON →
      ∀ probe, core.enabled probe = true) ∧
    (core.theInstance.state = .OFF ∨ core.theInstance.state = .REC_OFF →
      ∀ probe, core.enabled probe = false)

/-- Every probe is in the wanted mode already, or the kernel switches it without an error. -/
def Switches (env : Env δ) (wanted : Bool) (enabled : Probe → Bool) : Prop :=
  ∀ probe, enabled probe = wanted ∨
    (if wanted then env.enableKretprobe probe else env.disableKretprobe probe) = 0

/-- The call reads the name of `state` from its argument: it is root's, the lock is free, the
validation accepts the argument, and the conversion then gives `state`. -/
def Event.Requests (e : Event δ) (k : Kernel) (state : RefmonState) : Prop :=
  k.lock = false ∧ e.env.euid = GLOBAL_ROOT_UID ∧ ∃ newState validated m u,
    e.call = .setState newState ∧ Validates newState k validated m ∧
    stringToState newState m = .ok state u

/-- The kernel switches the probes that the requested state wants switched. -/
def Event.SwitchesProbes (e : Event δ) (k : Kernel) : Prop :=
  (∀ state, e.Requests k state → state = .ON ∨ state = .REC_ON → Switches e.env true k.core.enabled) ∧
    ∀ state, e.Requests k state → state = .OFF ∨ state = .REC_OFF →
      Switches e.env false k.core.enabled

/-- If the call is a `do_set_state` that returns zero, the probes then agree with the state. -/
def Event.AgreesAfter (e : Event δ) (k : Kernel) : Prop :=
  ∀ newState t, e.call = .setState newState → e.result k = .ok 0 t → Agrees t.core

/-- After an update the probes are all in the wanted mode exactly when the kernel switched
those that were not. -/
theorem enabledAfter_all_iff (env : Env δ) (wanted : Bool) (enabled : Probe → Bool) :
    (∀ probe, enabledAfter env wanted enabled probe = wanted) ↔ Switches env wanted enabled := by
  unfold enabledAfter Switches
  apply forall_congr'
  intro probe
  cases wanted with
  | true => simp [enabledAfterOn]
  | false =>
    cases henabled : enabled probe with
    | true => simp [enabledAfterOff, henabled]
    | false => simp [enabledAfterOff, henabled]

/-- The state that a request asks for wants the probes on or off. -/
theorem agrees_withState_iff (env : Env δ) (state : RefmonState) (core : Core) :
    Agrees (core.withState env state) ↔
      (state = .ON ∨ state = .REC_ON → Switches env true core.enabled) ∧
        (state = .OFF ∨ state = .REC_OFF → Switches env false core.enabled) := by
  have hmode (wanted : Bool) (hwanted : isOn { core.theInstance with state := state } = wanted) :
      (∀ probe, (core.withState env state).enabled probe = wanted) ↔
        Switches env wanted core.enabled := by
    rw [← enabledAfter_all_iff, Core.withState, hwanted]
  apply and_congr
  · apply forall_congr'
    intro hon
    apply hmode
    rcases hon with rfl | rfl <;> rfl
  · apply forall_congr'
    intro hoff
    apply hmode
    rcases hoff with rfl | rfl <;> rfl

/-- A request is carried out: the call returns zero and makes its change. -/
theorem result_of_requests {e : Event δ} {k : Kernel} {state : RefmonState} (h : e.Requests k state) :
    ∃ t, e.result k = .ok 0 t ∧ t.core = k.core.withState e.env state := by
  obtain ⟨hfree, hroot, newState, validated, m, u, hcall, hvalid, hread⟩ := h
  rw [Event.result, hcall]
  exact doSetState_sets hfree hroot hvalid hread

/-- A `do_set_state` that returns zero carried out a request. -/
theorem requests_of_result {e : Event δ} {k t : Kernel} {newState : UserPtr}
    (hcall : e.call = .setState newState) (hzero : e.result k = .ok 0 t) :
    ∃ state, e.Requests k state ∧ t.core = k.core.withState e.env state := by
  have hfree : k.lock = false := by
    by_contra hheld
    rw [Event.result, hcall] at hzero
    have hstuck : doSetState e.env newState k = .error .deadlock k := by
      simp [doSetState, bind, EStateM.bind, spinInstanceLock, hheld]
    rw [Call.handler, hstuck] at hzero
    cases hzero
  have hchanges := changes_of_result hzero
  rw [Event.Changes, hcall] at hchanges
  obtain ⟨hroot, validated, m, state, u, hvalid, hread, hcore⟩ := hchanges
  exact ⟨state, ⟨hfree, hroot, newState, validated, m, u, hcall, hvalid, hread⟩, hcore⟩

/-- A request made with the name of a state asks for that state. -/
theorem rootSetState_requests {fs : Vfs δ} {name : CString} {k : Kernel} {state asked : RefmonState}
    (hname : stateToString state = some name) (h : (rootSetState fs name).Requests k asked) :
    asked = state := by
  obtain ⟨-, -, newState, validated, m, u, hcall, -, hread⟩ := h
  cases hcall
  have hreads := (userString_pointsTo name).from m.aux.clock
  exact (wp_ok (wp_stringToState (E := fun _ _ => True) hreads hname) hread).1

/-- After a successful `do_set_state` the probes agree with the state exactly when the kernel
switched those that had to be. -/
theorem agreesAfter_iff_switchesProbes (e : Event δ) (k : Kernel) :
    e.AgreesAfter k ↔ e.SwitchesProbes k := by
  constructor
  · intro h
    have hagrees (state : RefmonState) (hrequest : e.Requests k state) :
        Agrees (k.core.withState e.env state) := by
      obtain ⟨t, hzero, hcore⟩ := result_of_requests hrequest
      obtain ⟨-, -, newState, -, -, -, hcall, -, -⟩ := hrequest
      rw [← hcore]
      exact h newState t hcall hzero
    exact ⟨fun state hrequest => ((agrees_withState_iff _ _ _).mp (hagrees state hrequest)).1,
      fun state hrequest => ((agrees_withState_iff _ _ _).mp (hagrees state hrequest)).2⟩
  · intro h newState t hcall hzero
    obtain ⟨state, hrequest, hcore⟩ := requests_of_result hcall hzero
    rw [hcore, agrees_withState_iff]
    exact ⟨h.1 state hrequest, h.2 state hrequest⟩

/-- A step whose probes are switched keeps the agreement. -/
theorem step_agrees (e : Event δ) (k : Kernel) (hswitches : e.SwitchesProbes k)
    (hk : Agrees k.core) : Agrees (step e k).core := by
  rcases step_cases e k with hcore | ⟨hzero, hchanges⟩
  · rw [hcore]
    exact hk
  · rcases hchanges.reconfigured with ⟨newState, hcall⟩ | ⟨change, hreconf⟩
    · exact (agreesAfter_iff_switchesProbes e k).mpr hswitches newState _ hcall hzero
    · obtain ⟨hstate, henabled, -⟩ := hreconf.frame
      rw [Agrees, hstate, henabled]
      exact hk

/-- The probes agree with the state when the module has just been loaded. -/
theorem Booted.agrees {k : Kernel} (h : Booted δ sha256 k) : Agrees k.core := by
  obtain ⟨-, hinst, -, hdisabled⟩ := h.loaded
  rw [Agrees, hinst]
  exact ⟨fun hon => by simp at hon, fun _ => hdisabled⟩

/-- In a run from a successful load, every `do_set_state` that returns zero leaves probes that
agree with the state if and only if, at each step, the kernel switches every probe that is not
in the mode of the requested state; and then they agree in every state reached. -/
theorem run_agrees_iff_switchesProbes {k : Kernel} (hk : Booted δ sha256 k) (events : List (Event δ)) :
    (EveryStep step Event.AgreesAfter events k ↔ EveryStep step Event.SwitchesProbes events k) ∧
      (EveryStep step Event.SwitchesProbes events k →
        ∀ first rest, events = first ++ rest → Agrees (run step first k).core) := by
  constructor
  · rw [everyStep_iff, everyStep_iff]
    simp only [agreesAfter_iff_switchesProbes]
  · intro hevery first rest hsplit
    rw [hsplit, everyStep_append] at hevery
    exact run_invariant step (I := fun t => Agrees t.core) step_agrees hevery.1 hk.agrees

section FailedProbe

/-- A kernel that refuses to enable the probe on directory creation. -/
def refusesMkdir : Env Unit :=
  { rootOnly.calm ciaoSha256 with
    enableKretprobe := fun probe => if probe = .vfsMkdir then -EINVAL else 0 }

/-- Root sets the state `ON` in that kernel. -/
def setOnRefused : Event Unit := ⟨refusesMkdir, .setState (userString REFMON_STATE_STRING_ON)⟩

/-- The kernel refuses one probe: the call returns zero, the state is `ON`, and the probe is
not enabled. -/
theorem refused_probe_disagrees :
    Booted Unit ciaoSha256 (booted rootOnly) ∧
      returned (setOnRefused.result (booted rootOnly)) = some 0 ∧
      (step setOnRefused (booted rootOnly)).core.theInstance.state = .ON ∧
      (step setOnRefused (booted rootOnly)).core.enabled .vfsMkdir = false ∧
      ¬ Agrees (step setOnRefused (booted rootOnly)).core := by
  have hstate : (step setOnRefused (booted rootOnly)).core.theInstance.state = .ON := by
    decide +kernel
  have hprobe : (step setOnRefused (booted rootOnly)).core.enabled .vfsMkdir = false := by
    decide +kernel
  refine ⟨booted_rootOnly, by decide +kernel, hstate, hprobe, fun hagrees => ?_⟩
  exact Bool.false_ne_true (hprobe.symm.trans (hagrees.1 (Or.inl hstate) .vfsMkdir))

/-- The theorem on agreement along a run that sets the state `ON`. -/
theorem run_agrees_iff_switchesProbes_setOn :
    EveryStep step Event.AgreesAfter [rootSetState rootOnly REFMON_STATE_STRING_ON]
        (booted rootOnly) ↔
      EveryStep step Event.SwitchesProbes [rootSetState rootOnly REFMON_STATE_STRING_ON]
        (booted rootOnly) :=
  (run_agrees_iff_switchesProbes booted_rootOnly _).1

end FailedProbe

end Refmon
