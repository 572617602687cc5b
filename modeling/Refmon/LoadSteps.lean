import Refmon.Load

/-!
# A load, step by step

`init_module` taken apart into the steps whose effects other processes can see: the proc files
appear one by one, the table entries are overwritten one by one, so are the fields of
`syscall_codes`, and the probes are registered one by one. The steps run in order up to the
first one that fails, and are then `init_module` up to its label `abort`.
-/

namespace Refmon

/-- A step of `init_module`. -/
inductive LoadStep
  | initPassword
  | initInstance
  | createProc (file : ProcFile)
  | getEntries
  | storeEntry (i : Fin HACKED_ENTRIES)
  | assignCode (i : Fin HACKED_ENTRIES)
  | register (probe : Probe)
deriving DecidableEq

/-- The fields of `struct registered_syscall_codes`, in the order of their assignments. -/
def RegisteredSyscallCodes.get (codes : RegisteredSyscallCodes) : Fin HACKED_ENTRIES → ℤ
  | 0 => codes.scCodeSetState
  | 1 => codes.scCodeReconfAdd
  | 2 => codes.scCodeReconfRm
  | 3 => codes.scCodeFlush

/-- The assignment of one field. -/
def RegisteredSyscallCodes.set (codes : RegisteredSyscallCodes) (i : Fin HACKED_ENTRIES) (code : ℤ) :
    RegisteredSyscallCodes :=
  match i with
  | 0 => { codes with scCodeSetState := code }
  | 1 => { codes with scCodeReconfAdd := code }
  | 2 => { codes with scCodeReconfRm := code }
  | 3 => { codes with scCodeFlush := code }

section

variable {δ : Type} (env : Env δ)

/-- `init_syscalls` up to its check of what `get_entries` has found. -/
def acquireEntries : K ℤ := do
  let area ← gets Core.syscalls
  if area.theSyscallTable = 0 then pure (-1)
  else do
    let (ret, written) := getEntries HACKED_ENTRIES fun i => area.words i
    match written with
    | none => pure ()
    | some (entryIds, niSyscall) =>
      put fun core => { core with syscalls := { core.syscalls with
        restore := fun i => entryIds.getD i 0, theNiSyscall := niSyscall } }
    if ret ≠ HACKED_ENTRIES then pure (-1) else pure 0

/-- What a step does; it fails when it does not return zero. -/
def LoadStep.action : LoadStep → K ℤ
  | .initPassword => Refmon.initPassword env
  | .initInstance => Refmon.initInstance env
  | .createProc file =>
    if env.procCreate file then do
      put fun core => { core with created := core.created ++ [.proc file] }
      pure 0
    else pure (-EINVAL)
  | .getEntries => acquireEntries
  | .storeEntry i => do
    put fun core => { core with syscalls := { core.syscalls with
      words := Function.update core.syscalls.words (core.syscalls.restore i) (env.newSysCallArray i) } }
    pure 0
  | .assignCode i => do
    put fun core => { core with syscalls := { core.syscalls with
      syscallCodes := core.syscalls.syscallCodes.set i (core.syscalls.restore i) } }
    pure 0
  | .register probe => do
    let ret := env.registerKretprobe probe
    if ret < 0 then pure ret
    else do
      put fun core => { core with
        registered := Function.update core.registered probe true,
        created := core.created ++ [.kretprobe probe] }
      pure 0

/-- Run the steps up to the first that fails. -/
def runSteps : List LoadStep → K ℤ
  | [] => pure 0
  | loadStep :: rest => do
    let ret ← loadStep.action env
    if ret ≠ 0 then pure ret else runSteps rest

/-- The steps of `init_syscalls`. -/
def syscallSteps : List LoadStep :=
  .getEntries :: (List.finRange HACKED_ENTRIES).map .storeEntry ++
    (List.finRange HACKED_ENTRIES).map .assignCode

/-- The steps of `init_module`, in order. -/
def loadSteps : List LoadStep :=
  [.initPassword, .initInstance] ++ procFiles.map .createProc ++ syscallSteps ++ probes.map .register

/-- Steps in sequence run one part after the other. -/
theorem runSteps_append (first rest : List LoadStep) :
    runSteps env (first ++ rest) =
      runSteps env first >>= fun ret => if ret ≠ 0 then pure ret else runSteps env rest := by
  induction first with
  | nil => simp [runSteps]
  | cons loadStep first ih =>
    rw [List.cons_append, runSteps, runSteps, bind_assoc]
    congr 1
    funext ret
    by_cases hret : ret = 0
    · simp [hret, ih]
    · simp [hret]

/-- `init_procfiles` runs its steps. -/
theorem createProcfiles_eq_runSteps (files : List ProcFile) :
    createProcfiles env files = runSteps env (files.map .createProc) := by
  induction files with
  | nil => rfl
  | cons file rest ih =>
    rw [createProcfiles, List.map_cons, runSteps, LoadStep.action, ih]
    split
    · simp
    · simp [EINVAL]

/-- `init_probes` runs its steps. -/
theorem registerProbes_eq_runSteps (list : List Probe) :
    registerProbes env list = runSteps env (list.map .register) := by
  induction list with
  | nil => rfl
  | cons probe rest ih =>
    rw [registerProbes, List.map_cons, runSteps, LoadStep.action, ih]
    split
    · rename_i hneg
      simp [hneg.ne]
    · simp

/-- `init_syscalls` from the stores on. -/
def publishEntries : K ℤ := do
  put fun core => { core with syscalls := core.syscalls.storeEach env.newSysCallArray }
  put fun core => { core with syscalls := { core.syscalls with syscallCodes :=
    ⟨core.syscalls.restore 0, core.syscalls.restore 1, core.syscalls.restore 2,
      core.syscalls.restore 3⟩ } }
  pure 0

/-- `init_syscalls` acquires entries, overwrites them and publishes their numbers. -/
theorem initSyscalls_eq_acquireEntries :
    initSyscalls env =
      acquireEntries >>= fun ret => if ret ≠ 0 then pure ret else publishEntries env := by
  rw [initSyscalls, acquireEntries, bind_assoc]
  congr 1
  funext area
  split
  · simp
  generalize getEntries HACKED_ENTRIES (fun i => area.words i) = found
  obtain ⟨ret, written⟩ := found
  cases written with
  | none => by_cases hret : ret = 4 <;> simp [hret, publishEntries]
  | some pair => by_cases hret : ret = 4 <;> simp [hret, publishEntries]

/-- `init_syscalls` runs its steps. -/
theorem initSyscalls_eq_runSteps : initSyscalls env = runSteps env syscallSteps := by
  rw [initSyscalls_eq_acquireEntries, syscallSteps, List.cons_append, runSteps]
  rfl

/-- A part of the load followed by the rest, up to the label `abort`. -/
theorem runSteps_append_abort (first rest : List LoadStep) :
    (runSteps env (first ++ rest) >>= fun ret => if ret ≠ 0 then abort ret else pure 0) =
      runSteps env first >>= fun ret => if ret ≠ 0 then abort ret
        else runSteps env rest >>= fun ret => if ret ≠ 0 then abort ret else pure 0 := by
  rw [runSteps_append, bind_assoc]
  congr 1
  funext ret
  by_cases hret : ret = 0
  · simp [hret]
  · simp [hret]

/-- A single step runs its action. -/
theorem runSteps_singleton (loadStep : LoadStep) : runSteps env [loadStep] = loadStep.action env := by
  rw [runSteps]
  conv_rhs => rw [← bind_pure (loadStep.action env)]
  congr 1
  funext ret
  by_cases hret : ret = 0
  · simp [hret, runSteps]
  · simp [hret]

/-- `init_module` runs the steps, and aborts with the result of one that fails. -/
theorem initModule_eq_runSteps :
    initModule env = runSteps env loadSteps >>= fun ret => if ret ≠ 0 then abort ret else pure 0 := by
  have hsplit : loadSteps = [.initPassword] ++ ([.initInstance] ++ (procFiles.map .createProc ++
    (syscallSteps ++ probes.map .register))) := rfl
  rw [hsplit, runSteps_append_abort, runSteps_append_abort, runSteps_append_abort,
    runSteps_append_abort, runSteps_singleton, runSteps_singleton, ← createProcfiles_eq_runSteps,
    ← initSyscalls_eq_runSteps, ← registerProbes_eq_runSteps]
  rfl

end

end Refmon
