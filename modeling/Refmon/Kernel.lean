import Refmon.CString
import Refmon.Library.Wp
import Mathlib.Algebra.GroupWithZero.Nat
import Mathlib.Data.Vector.Basic
import Mathlib.Logic.Function.Basic

/-!
# The module's memory and the kernel around it

`Kernel` is everything the module's functions read or write: its global variables, the
probes and proc entries it asked the kernel for, the words around the system-call table.
`Env` is the rest of the kernel during one call. Answers that may differ from one moment
to the next (allocations, path lookups, user memory) are indexed by the clock, which
every such question advances.

String buffers are values here: a buffer that is freed and then read keeps its contents,
and a leaked one is not accounted for.
-/

namespace Refmon

open Wp

/-- The largest path buffer, terminator included. -/
def PATH_MAX : ℕ := 4096

/-- The number `-1` as an inode number. -/
def REFMON_NO_INO_NO : UInt64 := 0xFFFFFFFFFFFFFFFF

def SHA256_DIGEST_SIZE : ℕ := 32

section Sizes

-- the sizes of the tables that are indexed with literals
instance (priority := high) neZeroTwo : NeZero 2 := ⟨by decide⟩
instance (priority := high) neZeroFour : NeZero 4 := ⟨by decide⟩
instance (priority := high) neZeroSixteen : NeZero 16 := ⟨by decide⟩

end Sizes

/-- A SHA-256 digest. -/
abbrev Digest := Vector UInt8 SHA256_DIGEST_SIZE

section Errno

def EPERM : ℤ := 1
def ENOENT : ℤ := 2
def EIO : ℤ := 5
def ENOMEM : ℤ := 12
def EACCES : ℤ := 13
def EEXIST : ℤ := 17
def ENOTDIR : ℤ := 20
def EINVAL : ℤ := 22
def ENAMETOOLONG : ℤ := 36
def ELOOP : ℤ := 40
def ENOTRECOVERABLE : ℤ := 131

end Errno

/-- `enum refmon_state`. A variable of this type can also hold a value outside the
enumerators, such as the `-EINVAL` that `string_to_state` returns. -/
inductive RefmonState
  | OFF
  | ON
  | REC_OFF
  | REC_ON
  | other (value : ℤ)
deriving DecidableEq

/-- `struct path_identifier`. -/
structure PathIdentifier where
  path : CString
  inoNo : UInt64
deriving DecidableEq

/-- `struct registry_entry`, without its list links. -/
structure RegistryEntry where
  registered : PathIdentifier
  resolved : PathIdentifier
deriving DecidableEq

/-- `struct refmon`, without its locks. The password is `NULL` until it is hashed. -/
structure TheInstance where
  state : RefmonState
  registry : List RegistryEntry
  password : Option CString
deriving DecidableEq

/-- The five kretprobes, in the order the source names them. -/
inductive Probe
  | vfsOpen
  | filpOpen
  | vfsUnlink
  | vfsMkdir
  | vfsRmdir
deriving DecidableEq

/-- The three proc files. -/
inductive ProcFile
  | syscallcodes
  | state
  | registry
deriving DecidableEq

/-- What the module asks the kernel to create, and later to remove. -/
inductive Resource
  | proc (file : ProcFile)
  | kretprobe (probe : Probe)
deriving DecidableEq

/-- The number of system-call table entries the module takes over. -/
abbrev HACKED_ENTRIES : ℕ := 4

/-- `struct registered_syscall_codes`. -/
structure RegisteredSyscallCodes where
  scCodeSetState : ℤ
  scCodeReconfAdd : ℤ
  scCodeReconfRm : ℤ
  scCodeFlush : ℤ
deriving DecidableEq

/-- The globals of `syscalls.c` and the memory they are about. `words i` is the word `i`
places after the address in `the_syscall_table`, and `i` may be negative. -/
structure SyscallArea where
  theSyscallTable : UInt64
  words : ℤ → UInt64
  restore : Fin HACKED_ENTRIES → ℤ
  theNiSyscall : UInt64
  syscallCodes : RegisteredSyscallCodes

/-- The state that outlives a call. `created` and `removed` record, in order, the resources
the kernel gave the module and the ones the module asked it to take back. -/
structure Core where
  theInstance : TheInstance
  registered : Probe → Bool
  enabled : Probe → Bool
  syscalls : SyscallArea
  created : List Resource
  removed : List Resource

/-- Bookkeeping of a run: the clock, the path references held, the releases of
`spinlock_inst`. -/
structure Aux where
  clock : ℕ
  refs : ℤ
  unlocks : ℕ
deriving DecidableEq

/-- The whole module: its lasting state, `spinlock_inst`, and the bookkeeping. -/
structure Kernel where
  core : Core
  lock : Bool
  aux : Aux

/-- The ways a call can end without returning. -/
inductive Fault
  /-- a string function is applied to `NULL` -/
  | nullDeref
  /-- a read of user memory hits an unmapped page -/
  | userFault
  /-- a read runs past the end of a kernel buffer -/
  | overrun
  /-- a pointer that was never assigned is freed -/
  | wildFree
  /-- an error pointer is dereferenced -/
  | errPtrDeref
  /-- `spinlock_inst` is taken while it is held -/
  | deadlock
deriving DecidableEq

/-- Code of the module. -/
abbrev K := EStateM Fault Kernel

/-- What `EXTRACT_INODE` gives access to. -/
structure Inode where
  ino : UInt64
  isDir : Bool
deriving DecidableEq

/-- A user-space string argument: `NULL`, or a pointer whose mapped bytes may be different
at every read. -/
abbrev UserPtr := Option (ℕ → List UInt8)

/-- The kernel around one call, with dentries of type `δ`. Lookups are those of the calling
process, from its working directory; `newSysCallArray` holds the addresses at which the
module's four system calls were loaded. -/
structure Env (δ : Type) where
  euid : UInt32
  kmalloc : ℕ → Bool
  crypto : ℕ → Bool
  sha256 : List UInt8 → Digest
  kernPath : ℕ → CString → Bool → Except ℤ δ
  dentryPathRaw : ℕ → δ → Except ℤ CString
  dPath : ℕ → Except ℤ CString
  inode : δ → Inode
  registerKretprobe : Probe → ℤ
  enableKretprobe : Probe → ℤ
  disableKretprobe : Probe → ℤ
  procCreate : ProcFile → Bool
  checkListInit : Bool
  newSysCallArray : Fin HACKED_ENTRIES → UInt64

/-- Advance the clock. -/
def Kernel.tick (s : Kernel) : Kernel :=
  { s with aux := { s.aux with clock := s.aux.clock + 1 } }

@[simp] theorem Kernel.tick_clock (s : Kernel) : s.tick.aux.clock = s.aux.clock + 1 := rfl

/-- Change the number of path references held. -/
def Kernel.hold (change : ℤ) (s : Kernel) : Kernel :=
  { s with aux := { s.aux with refs := s.aux.refs + change } }

/-- A later moment, before which the module changed nothing that lasts and did not touch its
lock. -/
structure Same (s t : Kernel) : Prop where
  core : t.core = s.core
  lock : t.lock = s.lock
  clock : s.aux.clock ≤ t.aux.clock
  unlocks : t.aux.unlocks = s.aux.unlocks

theorem Same.refl (s : Kernel) : Same s s := ⟨rfl, rfl, le_rfl, rfl⟩

theorem Same.trans (s t u : Kernel) (hst : Same s t) (htu : Same t u) : Same s u :=
  ⟨htu.core.trans hst.core, htu.lock.trans hst.lock, hst.clock.trans htu.clock,
    htu.unlocks.trans hst.unlocks⟩

theorem Same.tick (s : Kernel) : Same s s.tick := ⟨rfl, rfl, Nat.le_succ _, rfl⟩

theorem Same.hold (change : ℤ) (s : Kernel) : Same s (s.hold change) := ⟨rfl, rfl, le_rfl, rfl⟩

/-- A relation that questions to the outside world keep. -/
structure Steady (R : Kernel → Kernel → Prop) : Prop where
  refl : ∀ s, R s s
  trans : ∀ s t u, R s t → R t u → R s u
  tick : ∀ s, R s s.tick

theorem Same.steady : Steady Same := ⟨Same.refl, Same.trans, Same.tick⟩

/-- A bit test of the source: `flags & bit`. -/
def hasFlag (flags bit : ℕ) : Bool := flags &&& bit != 0

/-- Ask the outside world a question at this moment. -/
def ask {α : Type} (answer : ℕ → α) : K α :=
  fun s => .ok (answer s.aux.clock) s.tick

/-- Read a global variable. -/
def gets {α : Type} (view : Core → α) : K α := fun s => .ok (view s.core) s

/-- Assign to a global variable. -/
def put (change : Core → Core) : K PUnit :=
  fun s => .ok ⟨⟩ { s with core := change s.core }

section Calls

variable {δ : Type} (env : Env δ)

/-- `kmalloc` and `kstrdup`: whether the allocation succeeds. -/
def kmalloc : K Bool := ask env.kmalloc

/-- One of the fallible `crypto_shash` calls: whether it succeeds. -/
def crypto : K Bool := ask env.crypto

/-- No allocation fails during the call. -/
def Env.Allocates : Prop := ∀ n, env.kmalloc n = true

/-- No `crypto_shash` call fails during the call. -/
def Env.Hashes : Prop := ∀ n, env.crypto n = true

/-- `kern_path`, with or without `LOOKUP_FOLLOW`. A success holds a reference. -/
def kernPath (path : CString) (follow : Bool) : K (Except ℤ δ) := fun s =>
  match env.kernPath s.aux.clock path follow with
  | .ok d => .ok (.ok d) (s.tick.hold 1)
  | .error e => .ok (.error e) s.tick

/-- `path_put`. -/
def pathPut : K PUnit := fun s => .ok ⟨⟩ (s.hold (-1))

/-- `dentry_path_raw` into a buffer of `PATH_MAX` bytes. -/
def dentryPathRaw (dentry : δ) : K (Except ℤ CString) := ask fun n => env.dentryPathRaw n dentry

/-- `d_path` of the working directory into a buffer of `PATH_MAX` bytes. -/
def dPath : K (Except ℤ CString) := ask env.dPath

end Calls

/-- `SPIN_INSTANCE_LOCK`: a second acquisition never returns. -/
def spinInstanceLock : K PUnit := fun s =>
  if s.lock then .error .deadlock s else .ok ⟨⟩ { s with lock := true }

/-- `SPIN_INSTANCE_UNLOCK`. -/
def spinInstanceUnlock : K PUnit := fun s =>
  .ok ⟨⟩ { s with lock := false, aux := { s.aux with unlocks := s.aux.unlocks + 1 } }

section Specs

variable {δ α : Type} {E : Fault → Kernel → Prop} {s : Kernel}

/-- A question changes nothing that lasts. -/
theorem wp_ask {answer : ℕ → α} {Q : α → Kernel → Prop}
    (h : ∀ t, Same s t → Q (answer s.aux.clock) t) : wp (ask answer) Q E s :=
  h _ (Same.tick s)

/-- A question has one answer. -/
theorem wp_ask_iff {answer : ℕ → α} {Q : α → Kernel → Prop} :
    wp (ask answer) Q E s ↔ Q (answer s.aux.clock) s.tick := Iff.rfl

/-- What follows a question goes on from its answer. -/
theorem ask_bind {β : Type} (answer : ℕ → α) (f : α → K β) (s : Kernel) :
    (ask answer >>= f) s = f (answer s.aux.clock) s.tick := rfl

/-- The test of a fallible step: the failing branch knows that the step can fail. -/
theorem wp_ask_else {answer : ℕ → Bool} {m n : K α} {Q : α → Kernel → Prop}
    (hfail : ∀ t, Same s t → (¬ ∀ i, answer i = true) → wp m Q E t)
    (hok : ∀ t, Same s t → wp n Q E t) :
    wp (ask answer >>= fun ok => if ok = false then m else n) Q E s := by
  rw [wp_bind]
  refine wp_ask fun t ht => ?_
  split
  · rename_i hfalse
    exact hfail t ht fun hall => Bool.false_ne_true (hfalse.symm.trans (hall _))
  · exact hok t ht

@[simp] theorem wp_gets {view : Core → α} {Q : α → Kernel → Prop} :
    wp (gets view) Q E s ↔ Q (view s.core) s := Iff.rfl

@[simp] theorem wp_put {change : Core → Core} {Q : PUnit → Kernel → Prop} :
    wp (put change) Q E s ↔ Q ⟨⟩ { s with core := change s.core } := Iff.rfl

/-- A lookup answers as the namespace does at this moment. -/
theorem wp_kernPath {env : Env δ} {path : CString} {follow : Bool}
    {Q : Except ℤ δ → Kernel → Prop}
    (h : ∀ t, Same s t → Q (env.kernPath s.aux.clock path follow) t) :
    wp (kernPath env path follow) Q E s := by
  unfold wp kernPath
  cases hres : env.kernPath s.aux.clock path follow with
  | ok d => rw [hres] at h; exact h _ ⟨rfl, rfl, Nat.le_succ _, rfl⟩
  | error e => rw [hres] at h; exact h _ (Same.tick s)

theorem wp_pathPut {Q : PUnit → Kernel → Prop} (h : ∀ t, Same s t → Q ⟨⟩ t) :
    wp pathPut Q E s := h _ (Same.hold _ s)

/-- Taking the lock succeeds only when it is free. -/
theorem wp_spinInstanceLock {Q : PUnit → Kernel → Prop}
    (hfree : s.lock = false → Q ⟨⟩ { s with lock := true })
    (hheld : s.lock = true → E .deadlock s) : wp spinInstanceLock Q E s := by
  unfold wp spinInstanceLock
  cases hlock : s.lock with
  | true => exact hheld hlock
  | false => exact hfree hlock

theorem Steady.returns_ask {R : Kernel → Kernel → Prop} (h : Steady R) (answer : ℕ → α) :
    Returns R (ask answer) := fun s => h.tick s

theorem Steady.returns_gets {R : Kernel → Kernel → Prop} (h : Steady R) (view : Core → α) :
    Returns R (gets view) := fun s => h.refl s

theorem returns_ask (answer : ℕ → α) : Returns Same (ask answer) := Same.steady.returns_ask answer

theorem returns_gets (view : Core → α) : Returns Same (gets view) := Same.steady.returns_gets view

theorem returns_kernPath (env : Env δ) (path : CString) (follow : Bool) :
    Returns Same (kernPath env path follow) := fun _ => wp_kernPath fun _ h => h

theorem returns_pathPut : Returns Same pathPut := fun _ => wp_pathPut fun _ h => h

end Specs

end Refmon
