import Refmon.ProbingHandlers

/-!
# The kretprobes and the registers they see

The five `struct kretprobe` of `probing-handlers.c`, the registers with which the probed
functions are entered and left, and `krp_hook_tail`. An argument register carries the C type
with which the probed function was called, and a handler that takes it for something else has
no defined meaning. The lock that `krp_hook_tail` holds around its body guards nothing else.
-/

namespace Refmon

/-- The number of instances of each probe. -/
def REFMON_PROBES_NO : ℕ := 15

/-- The argument of a function of the kernel, by its C type. -/
inductive Arg (δ : Type)
  /-- `const struct path *`, of which the dentry is read -/
  | path (dentry : δ)
  /-- `struct file *`, of which the flags are read -/
  | file (fFlags : UInt32)
  /-- `const char *` -/
  | chars (name : CString)
  | int (value : UInt32)
  | umode (value : UInt16)

/-- `struct pt_regs`: the first three argument registers, and the register of the result. -/
structure PtRegs (δ : Type) where
  di : Arg δ
  si : Arg δ
  dx : Arg δ
  ax : ℤ

/-- The entry handlers. -/
inductive EntryHandler
  | krpHookOpen
  | krpHookRm
  | krpHookMkdir
deriving DecidableEq

/-- `struct kretprobe`. Every probe has `krp_hook_tail` as its return handler. -/
structure Kretprobe where
  symbolName : CString
  entryHandler : EntryHandler
  maxactive : ℕ
deriving DecidableEq

def krpVfsOpen : Kretprobe := ⟨lit "vfs_open", .krpHookOpen, REFMON_PROBES_NO⟩
def krpFilpOpen : Kretprobe := ⟨lit "filp_open", .krpHookOpen, REFMON_PROBES_NO⟩
def krpVfsUnlink : Kretprobe := ⟨lit "may_delete", .krpHookRm, REFMON_PROBES_NO⟩
def krpVfsMkdir : Kretprobe := ⟨lit "security_path_mkdir", .krpHookMkdir, REFMON_PROBES_NO⟩
def krpVfsRmdir : Kretprobe := ⟨lit "security_path_rmdir", .krpHookMkdir, REFMON_PROBES_NO⟩

section

variable {δ : Type} (env : Env δ)

/-- The registers with which `vfs_open(const struct path *, struct file *)` is entered; it does
not set the third one. -/
def vfsOpenRegs (dentry : δ) (fFlags : UInt32) (dx : Arg δ) (ax : ℤ) : PtRegs δ :=
  ⟨.path dentry, .file fFlags, dx, ax⟩

/-- The registers with which `filp_open(const char *, int, umode_t)` is entered. -/
def filpOpenRegs (filename : CString) (flags : UInt32) (mode : UInt16) (ax : ℤ) : PtRegs δ :=
  ⟨.chars filename, .int flags, .umode mode, ax⟩

/-- `krp_hook_open` on the registers of the probed function, when `di` holds a `struct path *`
and `si` a `struct file *`. -/
def krpHookOpenAt (regs : PtRegs δ) : Option (K ℤ) :=
  match regs.di, regs.si with
  | .path dentry, .file fFlags => some (krpHookOpen env dentry fFlags)
  | _, _ => none

/-- `regs_set_return_value`. -/
def regsSetReturnValue (regs : PtRegs δ) (value : ℤ) : PtRegs δ := { regs with ax := value }

/-- `krp_hook_tail`: the registers it leaves, and its result with the data of the work it
schedules. -/
def krpHookTail (current : Task δ) (regs : PtRegs δ) : PtRegs δ × K (ℤ × Option LogDataset) :=
  let regs := regsSetReturnValue regs (-EACCES)
  (regs,
    if regs.ax ≠ -EACCES then pure (-ENOTRECOVERABLE, none)
    else do
      let (ret, work) ← logHandler env current
      if ret < 0 then pure (ret, none) else pure (0, work))

/-- The tail makes the probed function return `-EACCES`. -/
@[simp] theorem krpHookTail_ax (current : Task δ) (regs : PtRegs δ) :
    (krpHookTail env current regs).1.ax = -EACCES := rfl

/-- On the registers of `vfs_open` the open hook reads what it expects. -/
@[simp] theorem krpHookOpenAt_vfsOpen (dentry : δ) (fFlags : UInt32) (dx : Arg δ) (ax : ℤ) :
    krpHookOpenAt env (vfsOpenRegs dentry fFlags dx ax) = some (krpHookOpen env dentry fFlags) := rfl

end

end Refmon
