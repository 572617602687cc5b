import Refmon.Kernel

/-!
# A namespace that stands still

The kernel's path functions are parameters. `Vfs` collects them as one process has them, from
its root and working directories, in a namespace that does not change; `Env.Sees` says that a
call runs in such a process: at every moment of the call its lookups are these.
-/

namespace Refmon

/-- The path functions of a process, with dentries of type `δ`. -/
structure Vfs (δ : Type) where
  kernPath : CString → Bool → Except ℤ δ
  dentryPathRaw : δ → Except ℤ CString
  dPath : Except ℤ CString
  inode : δ → Inode

/-- The call runs where the path functions are `fs`. -/
structure Env.Sees {δ : Type} (env : Env δ) (fs : Vfs δ) : Prop where
  kernPath : ∀ n path follow, env.kernPath n path follow = fs.kernPath path follow
  dentryPathRaw : ∀ n dentry, env.dentryPathRaw n dentry = fs.dentryPathRaw dentry
  dPath : ∀ n, env.dPath n = fs.dPath
  inode : env.inode = fs.inode

/-- A call by root in which no request to the kernel fails. -/
def Vfs.calm {δ : Type} (fs : Vfs δ) (sha256 : List UInt8 → Digest) : Env δ where
  euid := 0
  kmalloc _ := true
  crypto _ := true
  sha256 := sha256
  kernPath _ := fs.kernPath
  dentryPathRaw _ := fs.dentryPathRaw
  dPath _ := fs.dPath
  inode := fs.inode
  registerKretprobe _ := 0
  enableKretprobe _ := 0
  disableKretprobe _ := 0
  procCreate _ := true
  checkListInit := true
  newSysCallArray i := i.val.toUInt64

theorem Vfs.calm_sees {δ : Type} (fs : Vfs δ) (sha256 : List UInt8 → Digest) :
    (fs.calm sha256).Sees fs := ⟨fun _ _ _ => rfl, fun _ _ => rfl, fun _ => rfl, rfl⟩

/-- A namespace that holds its root directory and nothing else: every path but a row of
slashes fails. -/
def rootOnly : Vfs Unit where
  kernPath path _ :=
    if path ≠ [] ∧ path.all (· ∈ lit "/") ∧ path.length < PATH_MAX then .ok () else .error (-ENOENT)
  dentryPathRaw _ := .ok (lit "/")
  dPath := .ok (lit "/")
  inode _ := ⟨2, true⟩

end Refmon
