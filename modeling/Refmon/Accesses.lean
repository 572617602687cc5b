import Refmon.Calls
import Refmon.DeferredLog
import Refmon.HookSpecs

/-!
# Accesses beside calls and works

The module at work: tasks enter the probed functions and leave them, processes make system calls,
and the workers of the kernel run the works that were scheduled, in any order. The entry handler
of a probe that is enabled and has a free instance decides on the state that it finds; the return
handler denies the access and schedules a work. A handler that crashes keeps what it holds: its
instance, and in the return handler `spinlock_probing`; a work that crashes keeps the lock that
`defer` takes. The probe on `filp_open` reads its arguments as what they are not and is left out.
-/

namespace Refmon

open Runs Wp

/-- A call of a probed function, with the arguments that its probe reads. -/
inductive Target (δ : Type)
  | vfsOpen (dentry : δ) (fFlags : UInt32)
  | mayDelete (dentry : δ)
  | securityPathMkdir (dentry : δ)
  | securityPathRmdir (dentry : δ)

/-- An access: the function that is called, the task that calls it, the kernel around the entry
handler and around the return handler, and the registers with which the function itself returns. -/
structure Access (δ : Type) where
  target : Target δ
  current : Task δ
  entryEnv : Env δ
  returnEnv : Env δ
  regs : PtRegs δ

/-- Where an access stands. -/
inductive AccessPhase
  /-- not entered yet -/
  | outside
  /-- the entry handler has answered that the return handler is to run -/
  | armed
  /-- it runs without the probe -/
  | unprobed
  | returned (ax : ℤ)
  | crashed
deriving DecidableEq

/-- The module, where each access stands, which of them hold an instance, the works that wait, the
two locks that a crash leaves taken, and the log file. The rest is kept for the record: the accesses
that were denied, the works that were scheduled and those that were run, and what was written. -/
structure Mediation (κ : Type) where
  kernel : Kernel
  phase : κ → AccessPhase
  holders : List κ
  works : List LogDataset
  probing : Bool
  spin : Bool
  log : Refmonfs
  denied : List κ
  scheduled : List LogDataset
  ran : List LogDataset
  written : List (LogDataset × List UInt8)

/-- The module before any access, with a log that has just been mounted. -/
def Mediation.start {κ : Type} (kernel : Kernel) (log : Refmonfs) : Mediation κ where
  kernel := kernel
  phase _ := .outside
  holders := []
  works := []
  probing := false
  spin := false
  log := log
  denied := []
  scheduled := []
  ran := []
  written := []

@[simp] theorem Mediation.start_kernel {κ : Type} (kernel : Kernel) (log : Refmonfs) :
    (Mediation.start kernel log : Mediation κ).kernel = kernel := rfl

/-- What can happen next: a system call, an access that is entered or that returns, or a work, by its
place among those that wait. -/
inductive Occurrence (κ δ : Type)
  | call (e : Event δ)
  | enter (access : κ)
  | leave (access : κ)
  | work (place : ℕ) (w : Worker δ)

/-- The structure that a probe was registered with. -/
def Probe.kretprobe : Probe → Kretprobe
  | .vfsOpen => krpVfsOpen
  | .filpOpen => krpFilpOpen
  | .vfsUnlink => krpVfsUnlink
  | .vfsMkdir => krpVfsMkdir
  | .vfsRmdir => krpVfsRmdir

section

variable {δ κ : Type}

/-- The probe on the function. -/
def Target.probe : Target δ → Probe
  | .vfsOpen _ _ => .vfsOpen
  | .mayDelete _ => .vfsUnlink
  | .securityPathMkdir _ => .vfsMkdir
  | .securityPathRmdir _ => .vfsRmdir

/-- The dentry that the probe looks at. -/
def Target.dentry : Target δ → δ
  | .vfsOpen dentry _ => dentry
  | .mayDelete dentry => dentry
  | .securityPathMkdir dentry => dentry
  | .securityPathRmdir dentry => dentry

/-- The entry handler on the arguments of the call. -/
def Target.entryHandler (env : Env δ) : Target δ → K ℤ
  | .vfsOpen dentry fFlags => krpHookOpen env dentry fFlags
  | .mayDelete dentry => krpHookRm env dentry
  | .securityPathMkdir dentry => krpHookMkdir env dentry
  | .securityPathRmdir dentry => krpHookMkdir env dentry

/-- The access that an occurrence is about. -/
def Occurrence.subject : Occurrence κ δ → Option κ
  | .call _ => none
  | .enter access => some access
  | .leave access => some access
  | .work _ _ => none

variable (accesses : κ → Access δ)

/-- The instances of a probe that are held. -/
def Mediation.held (s : Mediation κ) (probe : Probe) : ℕ :=
  s.holders.countP fun access => (accesses access).target.probe = probe

/-- The probe on the function is enabled and has a free instance. -/
def Mediation.intercepts (s : Mediation κ) (access : κ) : Bool :=
  let probe := (accesses access).target.probe
  s.kernel.core.enabled probe && s.held accesses probe < probe.kretprobe.maxactive

/-- How the entry handler ends in this state. -/
def Mediation.entry (s : Mediation κ) (access : κ) : EStateM.Result Fault Kernel ℤ :=
  (accesses access).target.entryHandler (accesses access).entryEnv s.kernel

/-- The access is denied if it is entered in this state. -/
def Mediation.denies (s : Mediation κ) (access : κ) : Bool :=
  s.intercepts accesses access && returned (s.entry accesses access) == some KRP_TO_TAILHOOK

variable [DecidableEq κ]

/-- Move an access to another phase. -/
def Mediation.move (s : Mediation κ) (access : κ) (phase : AccessPhase) : Mediation κ :=
  { s with phase := Function.update s.phase access phase }

/-- An access enters its function. -/
def Mediation.enter (access : κ) (s : Mediation κ) : Mediation κ :=
  if s.intercepts accesses access then
    match s.entry accesses access with
    | .ok ret t =>
      if ret = KRP_TO_TAILHOOK then
        { s with kernel := t, holders := access :: s.holders }.move access .armed
      else { s with kernel := t }.move access .unprobed
    | .error _ t => { s with kernel := t, holders := access :: s.holders }.move access .crashed
  else s.move access .unprobed

/-- The return handler of an access runs, once it gets the lock. -/
def Mediation.tail (access : κ) (s : Mediation κ) : Mediation κ :=
  if s.probing then s
  else
    let (regs, log) := krpHookTail (accesses access).returnEnv (accesses access).current
      (accesses access).regs
    match log s.kernel with
    | .ok (_, work) t =>
      { s with
        kernel := t
        holders := s.holders.erase access
        works := s.works ++ work.toList
        denied := s.denied ++ [access]
        scheduled := s.scheduled ++ work.toList }.move access (.returned regs.ax)
    | .error _ t => { s with kernel := t, probing := true }.move access .crashed

/-- A worker runs one of the works that wait, once it gets the lock. -/
def Mediation.runWork (place : ℕ) (w : Worker δ) (s : Mediation κ) : Mediation κ :=
  if s.spin then s
  else
    match s.works[place]? with
    | none => s
    | some dataset =>
      let s := { s with works := s.works.eraseIdx place, ran := s.ran ++ [dataset] }
      match w.runWork dataset ⟨s.kernel, s.log, []⟩ with
      | none => { s with spin := true }
      | some (more, world) =>
        { s with
          kernel := world.kernel
          log := world.log
          works := s.works ++ more
          scheduled := s.scheduled ++ more
          written := s.written ++ world.records.map fun out => (dataset, out) }

/-- One thing happens. -/
def Mediation.step : Occurrence κ δ → Mediation κ → Mediation κ
  | .call e, s => { s with kernel := Refmon.step e s.kernel }
  | .enter access, s =>
    match s.phase access with
    | .outside => s.enter accesses access
    | _ => s
  | .leave access, s =>
    match s.phase access with
    | .armed => s.tail accesses access
    | .unprobed => s.move access (.returned (accesses access).regs.ax)
    | _ => s
  | .work place w, s => s.runWork place w

end

end Refmon
