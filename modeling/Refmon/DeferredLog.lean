import Refmon.Hash
import Refmon.Kretprobes
import Refmon.Library.Decimal
import Refmon.Library.WorkQueue
import Refmon.RefmonfsMount

/-!
# Writing the log in deferred work

`defer` of `logio.c`, which a kernel worker runs for each work that `log_handler` has scheduled, and
`hashgen_filecont` of `misc.c`. Both open files with `filp_open`, which enters `vfs_open` with the
dentry found, so that the probe on `vfs_open` sees the worker's own opens. The lock that `defer`
holds around its body guards nothing else.
-/

namespace Refmon

def REFMON_LOGLEN : ℕ := 516

/-- The path of the log file. -/
def REFMON_FILE_LOG_ABSOLUTE : CString := lit "/mnt/refmonfs/blocked-ops.log"

/-- The flags with which `defer` opens the log file. -/
def logFlags : UInt32 := O_WRONLY ||| O_CREAT ||| O_APPEND

/-- The kernel around the deferred works: what the module's functions ask it, the program of the
worker's task, if it has one (a kernel thread's `current->mm` is `NULL`), what `vfs_open` returns
by itself, and what `kernel_read` gives of a file: its chunks, and the result of the last call,
which is zero at the end of the file. The log file is written with the two last fields. -/
structure Worker (δ : Type) where
  env : Env δ
  current : Option (Task δ)
  vfsOpen : δ → UInt32 → ℤ
  kernelRead : δ → List (List UInt8) × ℤ
  sbBread : Fin 2 → ℕ → Bool
  outSize : ℤ

/-- What a run of `defer` does outside its worker: the works that are scheduled in it, and what it
hands to `kernel_write`. -/
structure Deferred where
  scheduled : List LogDataset
  written : Option (List UInt8)

/-- The line of the log, `"%d\t%d\t%u\t%u\t%s\t%s\n"`, cut down to its buffer. -/
def formatRecord (dataset : LogDataset) (hash : CString) : List UInt8 :=
  let line := Decimal.print dataset.tgid ++ [9] ++ Decimal.print dataset.tid ++ [9] ++
    Decimal.print dataset.uid.toNat ++ [9] ++ Decimal.print dataset.euid.toNat ++ [9] ++
    dataset.progPath.bytes ++ [9] ++ hash.bytes ++ [10]
  line.take (REFMON_LOGLEN - 1)

section

variable {δ : Type} (w : Worker δ)

/-- `krp_hook_tail` in the worker. In a kernel thread `log_handler` reads the program of a task that
has none, right after its first allocation. -/
def Worker.hookTail (regs : PtRegs δ) : PtRegs δ × K (ℤ × Option LogDataset) :=
  match w.current with
  | some current => krpHookTail w.env current regs
  | none =>
    (regsSetReturnValue regs (-EACCES), do
      let logDatasetInst ← kmalloc w.env
      if logDatasetInst = false then pure (-ENOMEM, none) else throw .nullDeref)

/-- What the probe on `vfs_open` decides about an open, if it is enabled. -/
def Worker.probeVerdict (dentry : δ) (flags : UInt32) : K ℤ := do
  let probed ← gets fun core => core.enabled .vfsOpen
  if probed then krpHookOpen w.env dentry flags else pure KRP_GO_AHEAD

/-- `filp_open` of an existing file, with the works that are scheduled when the probe on `vfs_open`
diverts it. -/
def Worker.filpOpen (filename : CString) (flags : UInt32) : K (Except ℤ δ × List LogDataset) := do
  match ← ask fun n => w.env.kernPath n filename true with
  | .error e => pure (.error e, [])
  | .ok dentry => do
    let verdict ← w.probeVerdict dentry flags
    let ret := w.vfsOpen dentry flags
    if verdict = KRP_TO_TAILHOOK then do
      let (regs, log) := w.hookTail (vfsOpenRegs dentry flags (.int 0) ret)
      let (_, work) ← log
      pure (.error regs.ax, work.toList)
    else pure (if ret = 0 then .ok dentry else .error ret, [])

/-- The loop of `hashgen_filecont`: whether every chunk could be added to the hash. -/
def Worker.updateHash : List (List UInt8) → K Bool
  | [] => pure true
  | _ :: rest => do
    let update ← crypto w.env
    if update = false then pure false else Worker.updateHash rest

/-- The part of `hashgen_filecont` behind its open. -/
def Worker.hashOpened : Except ℤ δ × List LogDataset → K (Option CString × List LogDataset)
  | (.error _, works) => pure (none, works)
  | (.ok file, works) => do
    let (chunks, last) := w.kernelRead file
    let updated ← w.updateHash chunks
    if updated = false then pure (none, works)
    else if last < 0 then pure (none, works)
    else do
      let final ← crypto w.env
      if final = false then pure (none, works)
      else pure (some (hexconv (w.env.sha256 chunks.flatten)), works)

/-- `hashgen_filecont`, with the works that its open schedules. A failure before the file is opened
closes a file that no statement has assigned. -/
def Worker.hashgenFilecont (filepath : CString) : K (Option CString × List LogDataset) := do
  let out ← kmalloc w.env
  if out = false then throw .wildFree
  else do
    let buft ← kmalloc w.env
    if buft = false then throw .wildFree
    else do
      let shash ← crypto w.env
      if shash = false then throw .wildFree
      else do
        let desc ← kmalloc w.env
        if desc = false then throw .wildFree
        else do
          let init ← crypto w.env
          if init = false then pure (none, [])
          else do
            let opened ← w.filpOpen filepath O_RDONLY
            w.hashOpened opened

/-- `defer`. -/
def Worker.defer (dataset : LogDataset) : K Deferred := do
  match ← w.hashgenFilecont dataset.progPath with
  | (none, works) => pure ⟨works, none⟩
  | (some hash, works) => do
    let out := formatRecord dataset hash
    match ← w.filpOpen REFMON_FILE_LOG_ABSOLUTE logFlags with
    | (.error _, more) => pure ⟨works ++ more, none⟩
    | (.ok _, more) => pure ⟨works ++ more, some out⟩

/-- What the deferred works act on: the module's state, the log file, and the records appended. -/
structure LogWorld where
  kernel : Kernel
  log : Refmonfs
  records : List (List UInt8)

/-- `kernel_write` to the log file. -/
def Worker.kernelWrite (out : List UInt8) (world : LogWorld) : LogWorld :=
  match onefilefsWriteAsync ⟨out, w.sbBread, w.outSize⟩ world.log with
  | (.ok _, log) => { world with log := log, records := world.records ++ [out] }
  | (.error _, log) => { world with log := log }

/-- One deferred work, unless it crashes the worker. -/
def Worker.runWork (dataset : LogDataset) (world : LogWorld) : Option (List LogDataset × LogWorld) :=
  match w.defer dataset world.kernel with
  | .error _ _ => none
  | .ok deferred t =>
    let world := { world with kernel := t }
    some (deferred.scheduled,
      match deferred.written with
      | none => world
      | some out => w.kernelWrite out world)

/-- A denied access: the task that makes it and the kernel around it, and the registers with which
the probed function returns. -/
structure Denial (δ : Type) where
  env : Env δ
  current : Task δ
  regs : PtRegs δ

/-- The works that a denied access leads to, after so many steps of the worker. -/
def Worker.worksAfter (denial : Denial δ) (k : Kernel) (log : Refmonfs) (n : ℕ) :
    Option (WorkQueue.State LogDataset LogWorld) :=
  match (krpHookTail denial.env denial.current denial.regs).2 k with
  | .error _ _ => none
  | .ok (_, work) t => WorkQueue.afterSteps w.runWork n ⟨work.toList, 0, ⟨t, log, []⟩⟩

end

end Refmon
