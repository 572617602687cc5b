import Refmon.Hash
import Refmon.Scth

/-!
# Loading and unloading the module

`refmon.c` with the set-up functions of `procio.c`, `syscalls.c` and `probing.c`. The words
around the system-call table are taken to be mapped, whatever index they are written at.
-/

namespace Refmon

open Wp

def REFMON_DEFAULT_PASSWORD : CString := lit "ciao"

/-- The proc files in the order in which they are created and removed. -/
def procFiles : List ProcFile := [.syscallcodes, .state, .registry]

/-- The probes in the order in which they are registered and unregistered. -/
def probes : List Probe := [.vfsOpen, .filpOpen, .vfsUnlink, .vfsMkdir, .vfsRmdir]

section

variable {δ : Type} (env : Env δ)

/-- `init_password`. -/
def initPassword : K ℤ := do
  match ← hashgenStr env REFMON_DEFAULT_PASSWORD with
  | none => pure (-ENOTRECOVERABLE)
  | some enc => do
    put fun core => { core with theInstance := { core.theInstance with password := some enc } }
    pure 0

/-- `init_instance`. -/
def initInstance : K ℤ := do
  put fun core => { core with theInstance := { core.theInstance with state := .OFF } }
  put fun core => { core with theInstance := { core.theInstance with registry := [] } }
  if env.checkListInit then pure 0 else pure (-ENOTRECOVERABLE)

/-- Create the proc files in turn; the first failure ends the function. -/
def createProcfiles : List ProcFile → K ℤ
  | [] => pure 0
  | file :: rest =>
    if env.procCreate file then do
      put fun core => { core with created := core.created ++ [.proc file] }
      createProcfiles rest
    else pure (-EINVAL)

/-- `init_procfiles`. -/
def initProcfiles : K ℤ := createProcfiles env procFiles

/-- The loop of stores `((unsigned long *)the_syscall_table)[restore[i]] = value(i)`. -/
def storeEach (restore : Fin HACKED_ENTRIES → ℤ) (value : Fin HACKED_ENTRIES → UInt64)
    (words : ℤ → UInt64) : ℤ → UInt64 :=
  (List.finRange HACKED_ENTRIES).foldl
    (fun words i => Function.update words (restore i) (value i)) words

/-- Store one value in each of the entries kept in `restore`. -/
def SyscallArea.storeEach (area : SyscallArea) (value : Fin HACKED_ENTRIES → UInt64) : SyscallArea :=
  { area with words := Refmon.storeEach area.restore value area.words }

/-- `init_syscalls`. -/
def initSyscalls : K ℤ := do
  let area ← gets Core.syscalls
  if area.theSyscallTable = 0 then pure (-1)
  else do
    let (ret, written) := getEntries HACKED_ENTRIES fun i => area.words i
    match written with
    | none => pure ()
    | some (entryIds, niSyscall) =>
      put fun core => { core with syscalls := { core.syscalls with
        restore := fun i => entryIds.getD i 0, theNiSyscall := niSyscall } }
    if ret ≠ HACKED_ENTRIES then pure (-1)
    else do
      put fun core => { core with syscalls := core.syscalls.storeEach env.newSysCallArray }
      put fun core => { core with syscalls := { core.syscalls with syscallCodes :=
        ⟨core.syscalls.restore 0, core.syscalls.restore 1, core.syscalls.restore 2,
          core.syscalls.restore 3⟩ } }
      pure 0

/-- `register_kretprobe` of each probe in turn; the first failure ends the function. The
probes are registered disabled. -/
def registerProbes : List Probe → K ℤ
  | [] => pure 0
  | probe :: rest =>
    let ret := env.registerKretprobe probe
    if ret < 0 then pure ret
    else do
      put fun core => { core with
        registered := Function.update core.registered probe true,
        created := core.created ++ [.kretprobe probe] }
      registerProbes rest

/-- `init_probes`. -/
def initProbes : K ℤ := registerProbes env probes

end

/-- `flush_procfiles`. -/
def flushProcfiles : K PUnit :=
  put fun core => { core with removed := core.removed ++ procFiles.map .proc }

/-- `flush_syscalls`: the free slots get `the_ni_syscall` back, at whatever `restore` holds. -/
def flushSyscalls : K PUnit :=
  put fun core =>
    { core with syscalls := core.syscalls.storeEach fun _ => core.syscalls.theNiSyscall }

/-- `flush_probes`. -/
def flushProbes : K PUnit :=
  put fun core => { core with
    registered := fun _ => false,
    enabled := fun _ => false,
    removed := core.removed ++ probes.map .kretprobe }

/-- `cleanup_module`. -/
def cleanupModule : K PUnit := do
  flushProcfiles
  flushSyscalls
  flushProbes

section

variable {δ : Type} (env : Env δ)

/-- The label `abort` of `init_module`. -/
def abort (ret : ℤ) : K ℤ := do
  cleanupModule
  pure ret

/-- `init_module`. -/
def initModule : K ℤ := do
  let ret ← initPassword env
  if ret ≠ 0 then abort ret
  else do
    let ret ← initInstance env
    if ret ≠ 0 then abort ret
    else do
      let ret ← initProcfiles env
      if ret ≠ 0 then abort ret
      else do
        let ret ← initSyscalls env
        if ret ≠ 0 then abort ret
        else do
          let ret ← initProbes env
          if ret ≠ 0 then abort ret else pure 0

end

end Refmon
