import Refmon.ProbeInstances

/-!
# One handler at two functions

`krp_hook_open` is the entry handler of the probes on `vfs_open` and on `filp_open`. It takes the
first argument register for a `struct path *` and the second for a `struct file *`, as `vfs_open`
is called. `filp_open` is called with a name and with flags, so that there the handler takes the
characters of the name for a path and the flags for the address of a file.
-/

namespace Refmon

open Wp

variable {δ : Type} (env : Env δ)

/-- What a probe's entry handler does at the registers of an open, if the handler is
`krp_hook_open` and the registers hold what it takes them for. -/
def Kretprobe.enterOpen (probe : Kretprobe) (regs : PtRegs δ) : Option (K ℤ) :=
  match probe.entryHandler with
  | .krpHookOpen => krpHookOpenAt env regs
  | _ => none

/-- The first two argument registers hold a `struct path *` and a `struct file *`. -/
def PtRegs.HoldsPathAndFile (regs : PtRegs δ) : Prop :=
  (∃ dentry, regs.di = .path dentry) ∧ ∃ fFlags, regs.si = .file fFlags

/-- `krp_hook_open` reads what it expects exactly from such registers. -/
theorem krpHookOpenAt_isSome_iff (regs : PtRegs δ) :
    (krpHookOpenAt env regs).isSome = true ↔ regs.HoldsPathAndFile := by
  obtain ⟨di, si, dx, ax⟩ := regs
  constructor
  · intro hsome
    cases di with
    | path dentry =>
      cases si with
      | file fFlags => exact ⟨⟨dentry, rfl⟩, fFlags, rfl⟩
      | _ => cases hsome
    | _ => cases hsome
  · intro ⟨⟨dentry, hdi⟩, fFlags, hsi⟩
    dsimp only at hdi hsi
    rw [hdi, hsi]
    rfl

/-- The registers of `vfs_open` hold a path and a file. -/
theorem vfsOpenRegs_holds (dentry : δ) (fFlags : UInt32) (dx : Arg δ) (ax : ℤ) :
    (vfsOpenRegs dentry fFlags dx ax).HoldsPathAndFile :=
  ⟨⟨dentry, rfl⟩, fFlags, rfl⟩

/-- Those of `filp_open` hold neither. -/
theorem filpOpenRegs_not_holds (filename : CString) (flags : UInt32) (mode : UInt16) (ax : ℤ) :
    ¬ (∃ dentry : δ, (filpOpenRegs filename flags mode ax).di = .path dentry) ∧
      ¬ ∃ fFlags, (filpOpenRegs (δ := δ) filename flags mode ax).si = .file fFlags := by
  constructor
  · intro ⟨dentry, hdi⟩
    cases hdi
  · intro ⟨fFlags, hsi⟩
    cases hsi

/-- The two probes agree on an open that enters them with these registers, in the state `k`: both
read a path and a file, and they give the same verdict. -/
def OpenProbesAgree (k : Kernel) (filpRegs vfsRegs : PtRegs δ) : Prop :=
  filpRegs.HoldsPathAndFile ∧ vfsRegs.HoldsPathAndFile ∧
    ∃ filpHook vfsHook, krpFilpOpen.enterOpen env filpRegs = some filpHook ∧
      krpVfsOpen.enterOpen env vfsRegs = some vfsHook ∧ returned (filpHook k) = returned (vfsHook k)

/-- No open makes the two probes agree. At `vfs_open` the handler reads a path and a file, and its
verdict is that of the hook; at `filp_open` it reads neither, whatever the name and the flags. -/
theorem open_probes_never_agree (k : Kernel) (filename : CString) (flags : UInt32) (mode : UInt16)
    (dentry : δ) (dx : Arg δ) (filpAx vfsAx : ℤ) :
    ¬ OpenProbesAgree env k (filpOpenRegs filename flags mode filpAx)
        (vfsOpenRegs dentry flags dx vfsAx) ∧
      krpVfsOpen.enterOpen env (vfsOpenRegs dentry flags dx vfsAx) =
        some (krpHookOpen env dentry flags) ∧
      krpFilpOpen.enterOpen env (filpOpenRegs filename flags mode filpAx) = none := by
  refine ⟨fun hagree => ?_, rfl, rfl⟩
  exact (filpOpenRegs_not_holds filename flags mode filpAx).1 hagree.1.1

/-- The file `/d/f` below a registered directory is opened for writing by its name: `vfs_open` is
diverted, and at `filp_open` the name itself is taken for the path. -/
theorem protected_open_probes_disagree :
    (linkedFileNs.view linkedFile_sound.rootDir).kernPath (lit "/d/f") true = .ok linkedTarget ∧
      (∃ hook, krpVfsOpen.enterOpen linkedEnv (vfsOpenRegs linkedTarget O_WRONLY (.int 0) 0) = some hook ∧
        returned (hook linkedOn) = some KRP_TO_TAILHOOK) ∧
      (filpOpenRegs (δ := Dentry) (lit "/d/f") O_WRONLY 0 0).di = .chars (lit "/d/f") ∧
      ¬ OpenProbesAgree linkedEnv linkedOn (filpOpenRegs (lit "/d/f") O_WRONLY 0 0)
        (vfsOpenRegs linkedTarget O_WRONLY (.int 0) 0) := by
  refine ⟨by decide +kernel, ⟨_, rfl, by decide +kernel⟩, rfl, fun hagree => ?_⟩
  exact (filpOpenRegs_not_holds _ _ _ _).1 hagree.1.1

end Refmon
