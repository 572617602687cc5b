import Refmon.ProbeAgreement
import Refmon.SyscallTable

/-!
# Loading beside running processes

The proc files exist before the numbers in them are valid, and the system calls can be invoked
before the probes are registered. A process that reads the numbers too early finds zeros; one
that sets the state too early leaves probes that are never enabled. A load beside processes that
do neither ends with numbers and probes as they should be.
-/

namespace Refmon

open Wp Runs

variable {δ : Type}

/-- A load in progress: the module's state, and the steps that are still to be taken. -/
structure Loading where
  kernel : Kernel
  remaining : List LoadStep

/-- The next step of the load, or a step of another process: it reads the numbers, or invokes
an entry of the system-call table with the arguments of one of the calls. -/
inductive LoadEvent (δ : Type)
  | load
  | read
  | invoke (number : ℤ) (event : Event δ)

/-- One step. A step of the load that fails, or an entry with another function in it, is not part
of what is looked at here. -/
def Loading.step (env : Env δ) : LoadEvent δ → Loading → Loading
  | .load, s =>
    match s.remaining with
    | [] => s
    | loadStep :: rest =>
      match loadStep.action env s.kernel with
      | .ok ret k => if ret = 0 then ⟨k, rest⟩ else s
      | .error _ _ => s
  | .read, s => s
  | .invoke number e, s =>
    if s.kernel.core.syscalls.words number = env.scAddr e.call.command then
      { s with kernel := Refmon.step e s.kernel }
    else s

/-- The file with the numbers is there to be read. -/
def Loading.Readable (s : Loading) : Prop := .proc .syscallcodes ∈ s.kernel.core.created

/-- Every number that can be read is that of an entry with the handler of its command. -/
def Loading.NumbersMatch (env : Env δ) (s : Loading) : Prop :=
  ∀ command : Command, s.kernel.core.syscalls.words
    (getSyscallIndex (some (formatSyscallCodes s.kernel.core.syscalls.syscallCodes)) command.order) =
      env.scAddr command

/-- `enable_kretprobe` and `disable_kretprobe` succeed on the probes that are registered, and
refuse the others. -/
def Loading.Answers : LoadEvent δ → Loading → Prop
  | .invoke _ e, s => ∀ probe,
    (e.env.enableKretprobe probe = 0 ↔ s.kernel.core.registered probe = true) ∧
      (e.env.disableKretprobe probe = 0 ↔ s.kernel.core.registered probe = true)
  | _, _ => True

/-- No process reads the numbers before they are all published, or sets the state to `ON` or
`REC-ON` before all probes are registered; and no state is set that has no name. -/
def Loading.Patient (env : Env δ) : LoadEvent δ → Loading → Prop
  | .load, _ => True
  | .read, s => s.Readable → ∀ i, .assignCode i ∉ s.remaining
  | .invoke number e, s =>
    s.kernel.core.syscalls.words number = env.scAddr e.call.command →
      ∀ state, e.Requests s.kernel state → state.Valid ∧
        (state = .ON ∨ state = .REC_ON → ∀ probe, s.kernel.core.registered probe = true)

/-- What a load beside patient processes keeps. -/
structure Loading.Sound (env : Env δ) (before : SyscallArea) (s : Loading) : Prop where
  suffix : s.remaining <:+ loadSteps
  progress : Progress env before s.kernel.core.syscalls s.remaining
  pending : ∀ probe, s.kernel.core.registered probe = true → .register probe ∉ s.remaining
  registered : ∀ probe, s.kernel.core.enabled probe = true → s.kernel.core.registered probe = true
  waiting : .initInstance ∈ s.remaining → ∀ probe, s.kernel.core.enabled probe = false
  agrees : .initInstance ∉ s.remaining →
    Agrees s.kernel.core ∧ s.kernel.core.theInstance.state.Valid

/-- What the steps of a load do to the instance's state and to the probes. -/
theorem LoadStep.Effect.frame {env : Env δ} {core after : Core} {loadStep : LoadStep}
    (h : loadStep.Effect env core after) :
    after.enabled = core.enabled ∧
      (∀ probe, after.registered probe = true →
        core.registered probe = true ∨ loadStep = .register probe) ∧
      (∀ probe, core.registered probe = true → after.registered probe = true) ∧
      (loadStep = .initInstance → after.theInstance.state = .OFF) ∧
      (loadStep ≠ .initInstance → after.theInstance.state = core.theInstance.state) := by
  cases loadStep with
  | initPassword =>
    obtain ⟨enc, hafter⟩ := h
    rw [hafter]
    exact ⟨rfl, fun _ => Or.inl, fun _ => id, by simp, fun _ => rfl⟩
  | initInstance =>
    rw [show after = _ from h]
    exact ⟨rfl, fun _ => Or.inl, fun _ => id, fun _ => rfl, by simp⟩
  | getEntries =>
    obtain ⟨ids, ni, -, -, -, hafter⟩ := h
    rw [hafter]
    exact ⟨rfl, fun _ => Or.inl, fun _ => id, by simp, fun _ => rfl⟩
  | register probe =>
    rw [show after = _ from h]
    refine ⟨rfl, fun other hother => ?_, fun other hother => ?_, by simp, fun _ => rfl⟩
    · by_cases hsame : other = probe
      · rw [hsame]
        exact Or.inr rfl
      · left
        simpa [Function.update_of_ne hsame] using hother
    · by_cases hsame : other = probe
      · simp [hsame]
      · simpa [Function.update_of_ne hsame] using hother
  | _ =>
    rw [show after = _ from h]
    exact ⟨rfl, fun _ => Or.inl, fun _ => id, by simp, fun _ => rfl⟩

/-- The order of the steps: the instance is set up before the probes are registered, and the
handlers are stored before their numbers are published. -/
theorem order_of_suffix {remaining : List LoadStep} (h : remaining <:+ loadSteps) :
    (.initInstance ∈ remaining → ∀ probe, .register probe ∈ remaining) ∧
      ((∀ i, .assignCode i ∉ remaining) → ∀ i, .storeEntry i ∉ remaining) ∧ remaining.Nodup := by
  have hall : ∀ steps ∈ loadSteps.tails, (.initInstance ∈ steps → ∀ probe ∈ probes, .register probe ∈ steps) ∧
      ((∀ i, .assignCode i ∉ steps) → ∀ i, .storeEntry i ∉ steps) ∧ steps.Nodup := by
    decide
  obtain ⟨hprobes, hstored, hnodup⟩ := hall remaining ((List.mem_tails _ _).mpr h)
  refine ⟨fun hpending probe => hprobes hpending probe ?_, hstored, hnodup⟩
  cases probe <;> decide

section Preservation

variable {env : Env δ} {before : SyscallArea} {s : Loading}

/-- A step of the load keeps what it should. -/
theorem Loading.Sound.load {loadStep : LoadStep} {rest : List LoadStep} {k t : Kernel}
    (h : Loading.Sound env before ⟨k, loadStep :: rest⟩) (hrun : loadStep.action env k = .ok 0 t) :
    Loading.Sound env before ⟨t, rest⟩ := by
  have heffect := LoadStep.effect_of_ok hrun
  obtain ⟨henabled, hnew, hold, hinit, hstate⟩ := heffect.frame
  have hnodup := (order_of_suffix h.suffix).2.2
  constructor
  · exact (List.suffix_cons _ _).trans h.suffix
  · exact h.progress.step (orderly_of_suffix h.suffix) heffect
  · intro probe hregistered hmem
    rcases hnew probe hregistered with hbefore | hthis
    · exact h.pending probe hbefore (List.mem_cons_of_mem _ hmem)
    · rw [← hthis] at hmem
      exact (List.nodup_cons.mp hnodup).1 hmem
  · intro probe hprobe
    rw [henabled] at hprobe
    exact hold probe (h.registered probe hprobe)
  · intro hwaiting probe
    rw [henabled]
    exact h.waiting (List.mem_cons_of_mem _ hwaiting) probe
  · intro hrest
    by_cases hthis : loadStep = .initInstance
    · have hoff := hinit hthis
      have hnone := h.waiting (by rw [hthis]; exact List.mem_cons_self)
      dsimp only at hnone
      refine ⟨⟨fun hon => ?_, fun _ => ?_⟩, ?_⟩
      · rw [hoff] at hon
        simp at hon
      · rw [henabled]
        exact hnone
      · rw [hoff]
        exact Or.inl rfl
    · obtain ⟨hagrees, hvalid⟩ := h.agrees fun hmem =>
        (List.mem_cons.mp hmem).elim (fun heq => hthis heq.symm) hrest
      rw [Agrees, henabled, hstate hthis]
      exact ⟨hagrees, hvalid⟩

/-- The state is set while every probe that it needs is registered. -/
theorem Loading.Sound.withState {e : Event δ} {state : RefmonState} {t : Kernel}
    (h : s.Sound env before) (hvalid : state.Valid)
    (hanswers : ∀ probe, (e.env.enableKretprobe probe = 0 ↔ s.kernel.core.registered probe = true) ∧
      (e.env.disableKretprobe probe = 0 ↔ s.kernel.core.registered probe = true))
    (hready : state = .ON ∨ state = .REC_ON → ∀ probe, s.kernel.core.registered probe = true)
    (hcore : t.core = s.kernel.core.withState e.env state) :
    Loading.Sound env before ⟨t, s.remaining⟩ := by
  have hisOn : isOn { s.kernel.core.theInstance with state := state } = true →
      state = .ON ∨ state = .REC_ON := by
    rcases hvalid with rfl | rfl | rfl | rfl <;> simp [isOn, isOff]
  constructor
  · exact h.suffix
  · rw [hcore]
    exact h.progress
  · rw [hcore]
    exact h.pending
  · intro probe hprobe
    rw [hcore, Core.withState, enabledAfter] at hprobe
    rw [hcore]
    split at hprobe
    · rename_i hon
      exact hready (hisOn hon) probe
    · unfold enabledAfterOff at hprobe
      rw [Bool.and_eq_true] at hprobe
      exact h.registered probe hprobe.1
  · intro hwaiting probe
    have hnone := h.waiting hwaiting probe
    have hoff : isOn { s.kernel.core.theInstance with state := state } = false := by
      by_contra hon
      have hregistered := hready (hisOn (Bool.eq_true_of_not_eq_false hon)) probe
      exact h.pending probe hregistered ((order_of_suffix h.suffix).1 hwaiting probe)
    rw [hcore, Core.withState, hoff]
    simp [enabledAfter, enabledAfterOff, hnone]
  · intro _
    rw [hcore, agrees_withState_iff]
    refine ⟨⟨fun hon probe => ?_, fun _ probe => ?_⟩, hvalid⟩
    · exact Or.inr ((hanswers probe).1.mpr (hready hon probe))
    · cases henabled : s.kernel.core.enabled probe with
      | false => exact Or.inl rfl
      | true => exact Or.inr ((hanswers probe).2.mpr (h.registered probe henabled))

/-- A step that keeps the state and the probes keeps the rest. -/
theorem Loading.Sound.keep {t : Kernel} (h : s.Sound env before)
    (hsyscalls : t.core.syscalls = s.kernel.core.syscalls)
    (hregistered : t.core.registered = s.kernel.core.registered)
    (hstate : t.core.theInstance.state = s.kernel.core.theInstance.state)
    (henabled : t.core.enabled = s.kernel.core.enabled) : Loading.Sound env before ⟨t, s.remaining⟩ := by
  constructor
  · exact h.suffix
  · rw [hsyscalls]
    exact h.progress
  · rw [hregistered]
    exact h.pending
  · rw [hregistered, henabled]
    exact h.registered
  · rw [henabled]
    exact h.waiting
  · rw [Agrees, henabled, hstate]
    exact h.agrees

/-- Every step beside patient processes keeps what it should. -/
theorem Loading.Sound.step (event : LoadEvent δ) (hanswers : Loading.Answers event s)
    (hpatient : Loading.Patient env event s) (h : s.Sound env before) :
    (Loading.step env event s).Sound env before := by
  cases event with
  | load =>
    obtain ⟨k, remaining⟩ := s
    cases remaining with
    | nil => exact h
    | cons loadStep rest =>
      rw [Loading.step]
      dsimp only
      split
      · rename_i ret t hrun
        split
        · rename_i hret
          rw [hret] at hrun
          exact h.load hrun
        · exact h
      · exact h
  | read => exact h
  | invoke number e =>
    rw [Loading.step]
    split
    · rename_i hentry
      obtain ⟨hsyscalls, hregistered, -⟩ := step_frame e s.kernel
      rcases step_cases e s.kernel with hcore | ⟨hzero, hchanges⟩
      · exact h.keep hsyscalls hregistered (by rw [hcore]) (by rw [hcore])
      · rcases hchanges.reconfigured with ⟨newState, hcall⟩ | ⟨change, hreconf⟩
        · obtain ⟨state, hrequest, hcore⟩ := requests_of_result hcall hzero
          obtain ⟨hvalid, hready⟩ := hpatient hentry state hrequest
          exact h.withState hvalid hanswers hready hcore
        · obtain ⟨hstate, henabled, -⟩ := hreconf.frame
          exact h.keep hsyscalls hregistered hstate henabled
    · exact h

/-- The numbers match once they are published. -/
theorem Loading.Sound.numbersMatch (h : s.Sound env before) (hassigned : ∀ i, .assignCode i ∉ s.remaining) :
    s.NumbersMatch env := by
  intro command
  rw [h.progress.getSyscallIndex hassigned]
  exact h.progress.words_entry ((order_of_suffix h.suffix).2.1 hassigned) command

/-- Before the load everything is as it should be. -/
theorem sound_start {k : Kernel} (hfresh : Fresh k) : Loading.Sound env k.core.syscalls ⟨k, loadSteps⟩ := by
  constructor
  · exact List.suffix_rfl
  · exact progress_start _
  · intro probe hprobe
    rw [hfresh.registered] at hprobe
    cases hprobe
  · intro probe hprobe
    rw [hfresh.enabled] at hprobe
    cases hprobe
  · exact fun _ => hfresh.enabled
  · intro hinit
    have hmem : LoadStep.initInstance ∈ loadSteps := by decide
    exact absurd hmem hinit

end Preservation

end Refmon
