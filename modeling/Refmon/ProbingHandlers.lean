import Refmon.Fsutils

/-!
# The hooks

The entry handlers of `probing-handlers.c` and, from `logio.c`, `log_handler`, which runs when a
hook has denied an access. A hook that returns `KRP_GO_AHEAD` lets the access happen.
-/

namespace Refmon

def O_RDONLY : UInt32 := 0x0
def O_WRONLY : UInt32 := 0x1
def O_RDWR : UInt32 := 0x2
def O_ACCMODE : UInt32 := 0x3
def O_CREAT : UInt32 := 0x40
def O_TRUNC : UInt32 := 0x200
def O_APPEND : UInt32 := 0x400

def KRP_TO_TAILHOOK : ℤ := 0
def KRP_GO_AHEAD : ℤ := 1

/-- `get_accmods`. -/
def getAccmods (fFlags : UInt32) : UInt32 := fFlags &&& O_ACCMODE

/-- `is_write_acc`. -/
def isWriteAcc (fFlags : UInt32) : Bool :=
  let accmod := getAccmods fFlags
  accmod == O_WRONLY || accmod == O_RDWR || accmod == O_CREAT || accmod == O_TRUNC ||
    accmod == O_APPEND

/-- `struct log_dataset`. -/
structure LogDataset where
  tgid : ℤ
  tid : ℤ
  uid : UInt32
  euid : UInt32
  progPath : CString
deriving DecidableEq

/-- What `log_handler` reads of `current`. -/
structure Task (δ : Type) where
  exeFile : δ
  tgid : ℤ
  tid : ℤ
  uid : UInt32

section

variable {δ : Type} (env : Env δ)

/-- How the hooks name a dentry: its path, resolved again, or `NULL` when either step fails. -/
def absolutePath (dentry : δ) (flags : ℕ) : K (Option CString) := do
  match ← extractPathFromDentry env dentry with
  | none => pure none
  | some dentryPath => resolvePathAlloc env (some dentryPath) flags

/-- The identifier that the open and removal hooks build for a dentry. -/
def identify (dentry : δ) : K (Option PathIdentifier) := do
  match ← absolutePath env dentry REFMON_FSUTILS_RESOLVE_LINKS with
  | none => pure none
  | some absolutePath => do
    let absoluteIno ← extractInoNoFromPath env absolutePath
    pure (some ⟨absolutePath, absoluteIno⟩)

/-- The test with which each hook ends. -/
def verdict (id : PathIdentifier) : K ℤ := do
  let eligible ← isEligible env id
  if eligible then pure KRP_TO_TAILHOOK else pure KRP_GO_AHEAD

/-- `krp_hook_open`. -/
def krpHookOpen (dentry : δ) (fFlags : UInt32) : K ℤ := do
  match ← identify env dentry with
  | none => pure KRP_GO_AHEAD
  | some id => if isWriteAcc fFlags then verdict env id else pure KRP_GO_AHEAD

/-- `krp_hook_rm`. -/
def krpHookRm (dentry : δ) : K ℤ := do
  match ← identify env dentry with
  | none => pure KRP_GO_AHEAD
  | some id => if id.inoNo = REFMON_NO_INO_NO then pure KRP_GO_AHEAD else verdict env id

/-- `krp_hook_mkdir`, which also guards `security_path_rmdir`. -/
def krpHookMkdir (dentry : δ) : K ℤ := do
  match ← absolutePath env dentry
      (REFMON_FSUTILS_RESOLVE_LINKS ||| REFMON_FSUTILS_IGNORE_ABSOLUTE_PATHS) with
  | none => pure KRP_GO_AHEAD
  | some absolutePath => verdict env ⟨absolutePath, REFMON_NO_INO_NO⟩

/-- `log_handler`, with the data of the work it schedules. -/
def logHandler (current : Task δ) : K (ℤ × Option LogDataset) := do
  let logDatasetInst ← kmalloc env
  if logDatasetInst = false then pure (-ENOMEM, none)
  else do
    match ← extractPathFromDentry env current.exeFile with
    | none => pure (-EINVAL, none)
    | some path => do
      let progPath ← kmalloc env
      if progPath = false then pure (-ENOMEM, none)
      else do
        let logTwork ← kmalloc env
        if logTwork = false then pure (-ENOMEM, none)
        else pure (0, some ⟨current.tgid, current.tid, current.uid, env.euid, path⟩)

end

end Refmon
