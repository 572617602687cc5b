import Refmon.Kretprobes
import Refmon.Library.InstancePool
import Refmon.OpenMediation

/-!
# Concurrent opens and the instances of the probe

The probe on `vfs_open` has fifteen instances, and each denied open holds one until it returns.
An open that finds none is not seen by the hook at all. So every protected open is denied as
long as each of them finds a free instance, and the one that does not goes through.
-/

namespace Refmon

open Wp Runs InstancePool MountNamespace

variable {δ : Type}

/-- A call of `vfs_open`: the task that makes it, the file that it opens, the kernel and the
state of the module when its entry handler runs, and what `vfs_open` itself returns. -/
structure OpenCall (δ : Type) where
  env : Env δ
  kernel : Kernel
  current : Task δ
  dentry : δ
  fFlags : UInt32
  dx : Arg δ
  ret : ℤ

/-- The registers at the entry of the call. -/
def OpenCall.regs (call : OpenCall δ) : PtRegs δ := vfsOpenRegs call.dentry call.fFlags call.dx 0

/-- The entry handler answers that the return handler is to run. -/
def OpenCall.accepted (call : OpenCall δ) : Bool :=
  match krpHookOpenAt call.env call.regs with
  | some hook => returned (hook call.kernel) == some KRP_TO_TAILHOOK
  | none => false

/-- What the call returns when the return handler has run. -/
def OpenCall.hooked (call : OpenCall δ) : ℤ :=
  (krpHookTail call.env call.current { call.regs with ax := call.ret }).1.ax

/-- The probe on `vfs_open`, over the calls of any number of tasks. -/
def vfsOpenProbe {κ : Type} (calls : κ → OpenCall δ) : ReturnProbe κ ℤ where
  maxactive := krpVfsOpen.maxactive
  accepts := fun c => (calls c).accepted
  hooked := fun c => (calls c).hooked
  plain := fun c => (calls c).ret

/-- The call opens a protected file for writing while the state is on, and no allocation fails
in its entry handler. -/
structure OpenCall.ProtectedIn (fs : Vfs δ) (call : OpenCall δ) : Prop where
  on : isOn call.kernel.core.theInstance = true
  sees : call.env.Sees fs
  absolute : fs.Absolute
  hasPath : ∃ path, fs.dentryPathRaw call.dentry = .ok path
  allocates : call.env.Allocates
  denied : fs.DeniesOpen call.kernel.core.theInstance.registry call.dentry call.fFlags

/-- The call opens a protected file in some namespace. -/
def OpenCall.Protected (call : OpenCall δ) : Prop := ∃ fs, call.ProtectedIn fs

/-- The entry handler accepts the opens of protected files. -/
theorem OpenCall.Protected.accepted {call : OpenCall δ} (h : call.Protected) : call.accepted = true := by
  obtain ⟨fs, h⟩ := h
  obtain ⟨path, hpath⟩ := h.hasPath
  have hreturned := (returned_iff_of_decides
    (wp_krpHookOpen (k := call.kernel) h.sees h.absolute hpath call.fFlags)).1 h.allocates h.denied
  simp only [OpenCall.accepted, OpenCall.regs, krpHookOpenAt_vfsOpen, hreturned, beq_self_eq_true]

/-- What the hook denies is protected. -/
theorem OpenCall.protected_of_denied {call : OpenCall δ} {fs : Vfs δ} {path : CString}
    (hon : isOn call.kernel.core.theInstance = true) (hsees : call.env.Sees fs) (habs : fs.Absolute)
    (hpath : fs.dentryPathRaw call.dentry = .ok path) (hallocates : call.env.Allocates)
    (hdenied : returned (krpHookOpen call.env call.dentry call.fFlags call.kernel) =
      some KRP_TO_TAILHOOK) : call.Protected :=
  ⟨fs, hon, hsees, habs, ⟨path, hpath⟩, hallocates,
    (returned_iff_of_decides (wp_krpHookOpen hsees habs hpath call.fFlags)).2 hdenied⟩

variable {κ : Type} [DecidableEq κ]

section SixteenTasks

/-- The directory `/d` is registered by a relative path, and the state is on. -/
def linkedOn : Kernel :=
  step (rootSetState (linkedFileNs.view linkedFile_sound.rootDir) REFMON_STATE_STRING_ON)
    (linkedAdded (lit "d"))

/-- An open for writing of `/d/f` there, which `vfs_open` would let succeed. -/
def linkedOpen : OpenCall Dentry :=
  ⟨linkedEnv, linkedOn, ⟨linkedTarget, 1, 1, 0⟩, linkedTarget, O_WRONLY, .int 0, 0⟩

theorem linkedOpen_protected : linkedOpen.Protected := by
  have hshown := linkedTarget_shown linkedFile_sound.rootDir
  have hfits := (linkedFile_single.singleMount linkedFile_sound).fits _ _ false _ hshown
  have hsees : linkedOpen.env.Sees (linkedFileNs.view linkedFile_sound.rootDir) := Vfs.calm_sees _ _
  exact OpenCall.protected_of_denied (by decide +kernel) hsees (view_absolute _)
    (dentryPathRaw_of_fits hfits) (fun _ => rfl) (by decide +kernel)

end SixteenTasks

end Refmon
