import Refmon.Library.Runs
import Refmon.Library.Wp
import Refmon.LogRecords
import Refmon.RefmonfsMount

/-!
# Blocks that cannot be read

The four operations of the log's file system as they run one after the other on one device: each call
of `sb_bread` may or may not give a buffer head, `b_data` of no buffer head is a null dereference, and
`refmonfs_mutex` is held from one call to the next unless it is released. Three of the operations
return `-EIO` and leave everything as it was; `singlefilefs_fill_super` tests another variable, and
uses the missing buffer.
-/

namespace Refmon

open Runs Wp

/-- What `iget_locked` gives: nothing, an inode that was in the cache, or a new one. -/
inductive Iget
  | noMemory
  | cached
  | fresh
deriving DecidableEq

/-- The answers to the operations, by the moment they are asked for: whether `sb_bread` gives a
buffer head, the inode, whether `d_make_root` gives a dentry, and how many bytes `copy_to_user`
leaves out. -/
structure Disk where
  sbBread : ℕ → ℕ → Bool
  igetLocked : ℕ → ℕ → Iget
  dMakeRoot : ℕ → Bool
  uncopied : ℕ → ℕ

/-- The device, the cached inode and the offset of the log's file, `refmonfs_mutex`, the clock of the
answers, and the blocks asked for, each with whether it could be read. -/
structure Volume where
  fs : Refmonfs
  mutex : Bool
  moment : ℕ
  reads : List (ℕ × Bool)

/-- Operations on the volume, which may fault. -/
abbrev V := EStateM Fault Volume

section Operations

def mutexLock : V Unit := do
  let v ← get
  if v.mutex then throw .deadlock
  else modify fun v => { v with mutex := true }

def mutexUnlock : V Unit := modify fun v => { v with mutex := false }

/-- `b_data` of a buffer head: the data of its block. -/
def bData (bh : Option ℕ) : V ℕ :=
  match bh with
  | none => throw .nullDeref
  | some block => pure block

variable (disk : Disk)

/-- An answer, which takes a moment. -/
def Disk.answer {α : Type} (answers : ℕ → α) : V α := do
  let v ← get
  modify fun v => { v with moment := v.moment + 1 }
  pure (answers v.moment)

/-- `sb_bread`. -/
def Disk.bread (block : ℕ) : V (Option ℕ) := do
  let read ← Disk.answer fun moment => disk.sbBread moment block
  modify fun v => { v with reads := v.reads ++ [(block, read)] }
  pure (if read then some block else none)

/-- `singlefilefs_fill_super`. -/
def Disk.singlefilefsFillSuper : V ℤ := do
  let bh ← disk.bread SB_BLOCK_NUMBER
  -- the test that follows is of `sb`, which is not `NULL`
  let sbDisk ← bData bh
  let v ← get
  let magic := Device.u64 v.fs.blocks sbDisk offsetMagic
  if magic ≠ MAGIC then pure (-EBADF)
  else do
    let rootInode ← Disk.answer fun moment => disk.igetLocked moment SINGLEFILEFS_ROOT_INODE_NUMBER
    if rootInode = .noMemory then pure (-ENOMEM)
    else do
      let sRoot ← Disk.answer disk.dMakeRoot
      if sRoot = false then pure (-ENOMEM) else pure 0

/-- `onefilefs_lookup`. -/
def Disk.onefilefsLookup (name : CString) : V (Except ℤ Bool) :=
  if name = REFMON_FILE_LOG then do
    let theInode ← Disk.answer fun moment => disk.igetLocked moment SINGLEFILEFS_FILE_INODE_NUMBER
    match theInode with
    | .noMemory => pure (.error (-ENOMEM))
    | .cached => pure (.ok true)
    | .fresh => do
      let bh ← disk.bread SINGLEFILEFS_INODES_BLOCK_NUMBER
      -- the reference that `iput` gives back is not counted
      if bh = none then pure (.error (- EIO))
      else do
        let fsSpecificInode ← bData bh
        modify fun v => { v with fs := { v.fs with
          iSize := Device.u64 v.fs.blocks fsSpecificInode offsetFileSize } }
        pure (.ok true)
  else pure (.ok false)

/-- `onefilefs_read`: what it returns, the bytes that reach the user, and the offset after it. -/
def Disk.onefilefsRead (len off : ℕ) : V (ℤ × List UInt8 × ℕ) := do
  mutexLock
  let v ← get
  let fileSize := v.fs.iSize
  if off ≥ fileSize then do
    mutexUnlock
    pure (0, [], off)
  else do
    let len := if toU64 (off + len) > fileSize then fileSize - off else len
    let offset := off % DEFAULT_BLOCK_SIZE
    let len := if toU64 (offset + len) > DEFAULT_BLOCK_SIZE then DEFAULT_BLOCK_SIZE - offset else len
    let blockToRead := toInt (off / DEFAULT_BLOCK_SIZE + DEFAULT_INO_SIZE : ℕ)
    let bh ← disk.bread (sector blockToRead)
    if bh = none then do
      mutexUnlock
      pure (- EIO, [], off)
    else do
      let data ← bData bh
      let ret ← Disk.answer disk.uncopied
      let v ← get
      mutexUnlock
      pure ((len - ret : ℕ), ((List.ofFn (v.fs.blocks data)).drop offset).take (len - ret),
        off + (len - ret))

/-- `onefilefs_write_async`, once offset and block are settled. -/
def Disk.writeBlock (kvec : List UInt8) (outSize : ℤ) (fileSize offset blockOffset : ℕ)
    (blockToWrite : ℤ) : V ℤ := do
  let bh ← disk.bread (sector blockToWrite)
  if bh = none then do
    mutexUnlock
    pure (- EIO)
  else do
    let data ← bData bh
    modify fun v => { v with fs := v.fs.memcpy data blockOffset kvec }
    let written := toU64 (offset + kvec.length)
    modify fun v => { v with fs := if written > fileSize then { v.fs with iSize := written } else v.fs }
    modify fun v => { v with fs := { v.fs with fPos := offset } }
    mutexUnlock
    pure outSize

/-- `onefilefs_write_async` on a single-segment buffer. Nothing assigns the `out_size` that it
returns. -/
def Disk.onefilefsWriteAsync (kvec : List UInt8) (outSize : ℤ) : V ℤ := do
  mutexLock
  let v ← get
  let fileSize := v.fs.iSize
  let toBeWritten := kvec.length
  let blockOffset := fileSize % DEFAULT_BLOCK_SIZE
  let blockToWrite := toInt (fileSize / DEFAULT_BLOCK_SIZE + DEFAULT_INO_SIZE : ℕ)
  let spareSpace := DEFAULT_BLOCK_SIZE - blockOffset
  if spareSpace ≤ toBeWritten then do
    let bh ← disk.bread (sector blockToWrite)
    if bh = none then do
      mutexUnlock
      pure (- EIO)
    else disk.writeBlock kvec outSize fileSize (toU64 (fileSize + spareSpace)) 0 (toInt (blockToWrite + 1))
  else disk.writeBlock kvec outSize fileSize fileSize blockOffset blockToWrite

end Operations

/-- A call of one of the operations, with what it is given. -/
inductive Request
  | mount
  | lookup (name : CString)
  | read (len off : ℕ)
  | write (kvec : List UInt8) (outSize : ℤ)
deriving DecidableEq

/-- What an operation returns. A read also hands on the bytes and the offset. -/
inductive Reply
  | mounted (ret : ℤ)
  | found (ret : Except ℤ Bool)
  | gave (ret : ℤ) (bytes : List UInt8) (off : ℕ)
  | took (ret : ℤ)

/-- The reply that a block could not be read, with nothing read and the offset as it was. -/
def Request.ioError : Request → Reply
  | .mount => .mounted (- EIO)
  | .lookup _ => .found (.error (- EIO))
  | .read _ off => .gave (- EIO) [] off
  | .write _ _ => .took (- EIO)

/-- The operation that a request asks for. -/
def Disk.serve (disk : Disk) : Request → V Reply
  | .mount => .mounted <$> disk.singlefilefsFillSuper
  | .lookup name => .found <$> disk.onefilefsLookup name
  | .read len off => (fun (ret, bytes, off) => .gave ret bytes off) <$> disk.onefilefsRead len off
  | .write kvec outSize => .took <$> disk.onefilefsWriteAsync kvec outSize

/-- An operation starts with no block asked for. -/
def Volume.begin (v : Volume) : Volume := { v with reads := [] }

/-- A step of a run of requests. -/
def Disk.step (disk : Disk) (request : Request) (v : Volume) : Volume := after (disk.serve request v.begin)

/-- A volume before the first request, with the mutex free. -/
def Volume.start (fs : Refmonfs) : Volume := ⟨fs, false, 0, []⟩

/-- A block that the operation asked for could not be read. -/
def Volume.Missed (v : Volume) : Prop := ∃ block, (block, false) ∈ v.reads

/-- The operation does not fault and leaves the mutex free; if it misses a block, it returns `-EIO`
and leaves the blocks, the size and the offset as they were; and a mount succeeds only if block 0 has
been read and carries the magic number. -/
def Disk.Survives (disk : Disk) (request : Request) (v : Volume) : Prop :=
  wp (disk.serve request)
    (fun reply t => (t.Missed → reply = request.ioError ∧ t.fs = v.fs) ∧ t.mutex = false ∧
      (reply = .mounted 0 →
        (SB_BLOCK_NUMBER, true) ∈ t.reads ∧ Device.u64 v.fs.blocks SB_BLOCK_NUMBER offsetMagic = MAGIC))
    (fun _ _ => False) v.begin

/-- A mount can read block 0. -/
def Disk.ReadsSuperblock (disk : Disk) (request : Request) (v : Volume) : Prop :=
  request = .mount → disk.sbBread v.moment SB_BLOCK_NUMBER = true

section Pieces

variable {disk : Disk} {v : Volume} {E : Fault → Volume → Prop}

/-- The volume a moment later. -/
def Volume.later (v : Volume) : Volume := { v with moment := v.moment + 1 }

/-- An answer is the one for the moment, and takes it. -/
theorem wp_answer {α : Type} (answers : ℕ → α) (Q : α → Volume → Prop) :
    wp (Disk.answer answers) Q E v ↔ Q (answers v.moment) v.later := by
  simp [Disk.answer, Volume.later]

/-- The volume after a block has been asked for. -/
def Volume.asked (v : Volume) (block : ℕ) (read : Bool) : Volume :=
  { v with moment := v.moment + 1, reads := v.reads ++ [(block, read)] }

@[simp] theorem asked_fs (block : ℕ) (read : Bool) : (v.asked block read).fs = v.fs := rfl

@[simp] theorem later_fs : v.later.fs = v.fs := rfl

/-- `sb_bread` gives the buffer head of its block, or none. -/
theorem wp_bread_iff (block : ℕ) (Q : Option ℕ → Volume → Prop) :
    wp (disk.bread block) Q E v ↔
      (disk.sbBread v.moment block = true → Q (some block) (v.asked block true)) ∧
        (disk.sbBread v.moment block = false → Q none (v.asked block false)) := by
  cases hread : disk.sbBread v.moment block <;>
    simp [Disk.bread, wp_answer, hread, Volume.asked, Volume.later]

/-- The data of a buffer head can be used. -/
@[simp] theorem wp_bData_some (block : ℕ) (Q : ℕ → Volume → Prop) :
    wp (bData (some block)) Q E v ↔ Q block v := Iff.rfl

/-- The data of no buffer head cannot. -/
@[simp] theorem wp_bData_none (Q : ℕ → Volume → Prop) :
    wp (bData none) Q E v ↔ E .nullDeref v := Iff.rfl

/-- A mutex that is free is taken. -/
theorem wp_mutexLock_iff (hfree : v.mutex = false) (Q : Unit → Volume → Prop) :
    wp mutexLock Q E v ↔ Q () { v with mutex := true } := by
  simp [mutexLock, hfree]

@[simp] theorem wp_mutexUnlock (Q : Unit → Volume → Prop) :
    wp mutexUnlock Q E v ↔ Q () { v with mutex := false } := Iff.rfl

/-- No block has been missed when none has been asked for. -/
theorem not_missed_of_nil (h : v.reads = []) : ¬ v.Missed := by
  rintro ⟨block, hmem⟩
  rw [h] at hmem
  cases hmem

/-- A block that could be read is not missed. -/
theorem not_missed_of_read {t : Volume} {block : ℕ} (h : ¬ v.Missed)
    (hreads : t.reads = v.reads ++ [(block, true)]) : ¬ t.Missed := by
  rintro ⟨missed, hmem⟩
  rw [hreads, List.mem_append] at hmem
  rcases hmem with hmem | hmem
  · exact h ⟨missed, hmem⟩
  · simp at hmem

end Pieces

section Operations

variable (disk : Disk) {v : Volume}

/-- The answers to a mount or a lookup of the log file. -/
def Disk.mountCall (v : Volume) : MountCall :=
  { sbBread := disk.sbBread v.moment
    igetLocked := fun ino => disk.igetLocked (v.moment + 1) ino ≠ .noMemory
    dMakeRoot := disk.dMakeRoot (v.moment + 2) }

/-- A mount that can read block 0 returns what `singlefilefs_fill_super` returns on the blocks, and
changes nothing; one that cannot uses the missing buffer. -/
theorem wp_singlefilefsFillSuper :
    wp disk.singlefilefsFillSuper
      (fun ret t => singlefilefsFillSuper (disk.mountCall v) v.fs.blocks = .ok ret ∧
        t.fs = v.fs ∧ t.mutex = v.mutex ∧ t.reads = v.reads ++ [(SB_BLOCK_NUMBER, true)])
      (fun e t => singlefilefsFillSuper (disk.mountCall v) v.fs.blocks = .error e ∧
        disk.sbBread v.moment SB_BLOCK_NUMBER = false ∧ t.fs = v.fs ∧ t.mutex = v.mutex) v := by
  rw [Disk.singlefilefsFillSuper, wp_bind, wp_bread_iff]
  constructor
  · intro hread
    have hbread : ¬ (disk.mountCall v).sbBread SB_BLOCK_NUMBER = false := by
      simp [Disk.mountCall, hread]
    rw [wp_bind, wp_bData_some, wp_bind, wp_get, singlefilefsFillSuper, if_neg hbread]
    dsimp only [Volume.asked]
    -- a variable for the number, which `split` would otherwise begin to compute
    generalize Device.u64 v.fs.blocks SB_BLOCK_NUMBER offsetMagic = magic
    split
    · rw [wp_pure]
      exact ⟨rfl, rfl, rfl, rfl⟩
    rw [wp_bind, wp_answer]
    split
    · rename_i hroot
      have hnone : (disk.mountCall v).igetLocked SINGLEFILEFS_ROOT_INODE_NUMBER = false := by
        simpa [Disk.mountCall] using hroot
      rw [wp_pure, if_pos hnone]
      exact ⟨rfl, rfl, rfl, rfl⟩
    rename_i hroot
    have hsome : ¬ (disk.mountCall v).igetLocked SINGLEFILEFS_ROOT_INODE_NUMBER = false := by
      simpa [Disk.mountCall] using hroot
    rw [wp_bind, wp_answer, if_neg hsome]
    split
    · rename_i hdentry
      have hnone : (disk.mountCall v).dMakeRoot = false := hdentry
      rw [wp_pure, if_pos hnone]
      exact ⟨rfl, rfl, rfl, rfl⟩
    · rename_i hdentry
      have hsome : ¬ (disk.mountCall v).dMakeRoot = false := hdentry
      rw [wp_pure, if_neg hsome]
      exact ⟨rfl, rfl, rfl, rfl⟩
  · intro hread
    have hbread : (disk.mountCall v).sbBread SB_BLOCK_NUMBER = false := hread
    rw [wp_bind, wp_bData_none, singlefilefsFillSuper, if_pos hbread]
    exact ⟨rfl, hread, rfl, rfl⟩

/-- What the cache answers for the inode of the log's file, and the size that it holds. -/
def Disk.cachedSize (v : Volume) : Option ℕ :=
  if disk.igetLocked v.moment SINGLEFILEFS_FILE_INODE_NUMBER = .cached then some v.fs.iSize else none

/-- The answers to a lookup. -/
def Disk.lookupCall (v : Volume) : MountCall :=
  { sbBread := disk.sbBread (v.moment + 1)
    igetLocked := fun ino => disk.igetLocked v.moment ino ≠ .noMemory
    dMakeRoot := disk.dMakeRoot v.moment }

/-- A lookup returns what `onefilefs_lookup` returns on the blocks, and takes over the size it finds. -/
theorem wp_onefilefsLookup (name : CString) (hreads : v.reads = []) :
    wp (disk.onefilefsLookup name)
      (fun ret t => (ret, t.fs) = (onefilefsLookup (disk.lookupCall v) v.fs.blocks name
          (disk.cachedSize v)).map id (fun size => { v.fs with iSize := size.getD v.fs.iSize }) ∧
        t.mutex = v.mutex ∧ (t.Missed → ret = .error (- EIO) ∧ t.fs = v.fs))
      (fun _ _ => False) v := by
  have hnone := not_missed_of_nil hreads
  rw [Disk.onefilefsLookup]
  by_cases hname : name = REFMON_FILE_LOG
  · rw [if_pos hname, wp_bind, wp_answer]
    subst hname
    cases hinode : disk.igetLocked v.moment SINGLEFILEFS_FILE_INODE_NUMBER with
    | noMemory =>
      refine ⟨?_, rfl, fun h => absurd h hnone⟩
      simp [onefilefsLookup, Disk.lookupCall, Disk.cachedSize, hinode]
    | cached =>
      refine ⟨?_, rfl, fun h => absurd h hnone⟩
      simp [onefilefsLookup, Disk.lookupCall, Disk.cachedSize, hinode]
    | fresh =>
      dsimp only
      rw [wp_bind, wp_bread_iff]
      constructor
      · intro hread
        have hgiven : disk.sbBread (v.moment + 1) SINGLEFILEFS_INODES_BLOCK_NUMBER = true := hread
        rw [if_neg (Option.some_ne_none _), wp_bind, wp_bData_some, wp_bind, wp_modify, wp_pure]
        refine ⟨?_, rfl, fun h => ?_⟩
        · simp [onefilefsLookup, Disk.lookupCall, Disk.cachedSize, hinode, hgiven]
        · exact absurd h (not_missed_of_read hnone rfl)
      · intro hread
        have hrefused : disk.sbBread (v.moment + 1) SINGLEFILEFS_INODES_BLOCK_NUMBER = false := hread
        rw [if_pos rfl, wp_pure]
        refine ⟨?_, rfl, fun _ => ⟨rfl, rfl⟩⟩
        simp [onefilefsLookup, Disk.lookupCall, Disk.cachedSize, hinode, hrefused]
  · rw [if_neg hname, wp_pure]
    refine ⟨?_, rfl, fun h => absurd h hnone⟩
    by_cases hcached : disk.igetLocked v.moment SINGLEFILEFS_FILE_INODE_NUMBER = .cached
    · simp [onefilefsLookup, hname, Disk.cachedSize, hcached]
    · simp [onefilefsLookup, hname, Disk.cachedSize, hcached]

/-- The answers to a read. -/
def Disk.readCall (v : Volume) (len off : ℕ) : ReadCall :=
  { len := len, off := off, sbBread := disk.sbBread v.moment, uncopied := disk.uncopied (v.moment + 1) }

/-- A read gives the bytes and the offset that `onefilefs_read` gives on the blocks, or its error. -/
theorem wp_onefilefsRead (len off : ℕ) (hfree : v.mutex = false) (hreads : v.reads = []) :
    wp (disk.onefilefsRead len off)
      (fun (ret, bytes, after) t =>
        (match onefilefsRead (disk.readCall v len off) v.fs with
          | .error e => ret = e ∧ bytes = [] ∧ after = off
          | .ok (read, next) => ret = next - off ∧ bytes = read ∧ after = next) ∧
        t.fs = v.fs ∧ t.mutex = false ∧ (t.Missed → ret = - EIO ∧ bytes = [] ∧ after = off))
      (fun _ _ => False) v := by
  have hnone := not_missed_of_nil hreads
  rw [Disk.onefilefsRead, wp_bind, wp_mutexLock_iff hfree, wp_bind, wp_get]
  dsimp only
  by_cases hend : off ≥ v.fs.iSize
  · have hvalue : onefilefsRead (disk.readCall v len off) v.fs = .ok ([], off) := if_pos hend
    rw [if_pos hend, wp_bind, wp_mutexUnlock, wp_pure, hvalue]
    exact ⟨⟨(sub_self _).symm, rfl, rfl⟩, rfl, rfl, fun h => absurd h hnone⟩
  · rw [if_neg hend, wp_bind, wp_bread_iff]
    dsimp only
    constructor
    · intro hread
      rw [if_neg (Option.some_ne_none _), wp_bind, wp_bData_some, wp_bind, wp_answer, wp_bind, wp_get,
        wp_bind, wp_mutexUnlock, wp_pure, onefilefsRead, if_neg (by exact hend)]
      have hgiven : ¬ (disk.readCall v len off).sbBread (sector (toInt
          ((disk.readCall v len off).off / DEFAULT_BLOCK_SIZE + DEFAULT_INO_SIZE : ℕ))) = false :=
        ne_false_of_eq_true hread
      rw [if_neg hgiven]
      have hcount (start count : ℕ) : (count : ℤ) = ((start + count : ℕ) : ℤ) - start := by omega
      exact ⟨⟨hcount _ _, rfl, rfl⟩, rfl, rfl, fun h => absurd h (not_missed_of_read hnone rfl)⟩
    · intro hread
      have hvalue : onefilefsRead (disk.readCall v len off) v.fs = .error (- EIO) := by
        rw [onefilefsRead, if_neg (by exact hend)]
        exact if_pos hread
      rw [if_pos rfl, wp_bind, wp_mutexUnlock, wp_pure, hvalue]
      exact ⟨⟨rfl, rfl, rfl⟩, rfl, rfl, fun _ => ⟨rfl, rfl, rfl⟩⟩

/-- The value that a write returns, its error included. -/
def retOf : Except ℤ ℤ → ℤ
  | .ok ret => ret
  | .error err => err

/-- The second half of a write does what it does on the blocks, and releases the mutex. -/
theorem wp_writeBlock (call : WriteCall) (fileSize offset blockOffset : ℕ) (blockToWrite : ℤ)
    (hbread : call.sbBread 1 (sector blockToWrite) = disk.sbBread v.moment (sector blockToWrite))
    (hnone : ¬ v.Missed) :
    wp (disk.writeBlock call.kvec call.outSize fileSize offset blockOffset blockToWrite)
      (fun ret t => ret = retOf (writeBlock call v.fs fileSize offset blockOffset blockToWrite).1 ∧
        t.fs = (writeBlock call v.fs fileSize offset blockOffset blockToWrite).2 ∧ t.mutex = false ∧
        (t.Missed → ret = - EIO ∧ t.fs = v.fs))
      (fun _ _ => False) v := by
  rw [Disk.writeBlock, wp_bind, wp_bread_iff]
  constructor
  · intro hread
    rw [if_neg (Option.some_ne_none _), wp_bind, wp_bData_some, wp_bind, wp_modify]
    dsimp only
    rw [wp_bind, wp_modify, wp_bind, wp_modify, wp_bind, wp_mutexUnlock, wp_pure, writeBlock,
      if_neg (ne_false_of_eq_true (hbread.trans hread))]
    exact ⟨rfl, rfl, rfl, fun h => absurd h (not_missed_of_read hnone rfl)⟩
  · intro hread
    rw [if_pos rfl, wp_bind, wp_mutexUnlock, wp_pure, writeBlock, if_pos (hbread.trans hread)]
    exact ⟨rfl, rfl, rfl, fun _ => ⟨rfl, rfl⟩⟩

/-- The answers to a write. The block after the current one is asked for a moment later. -/
def Disk.writeCall (v : Volume) (kvec : List UInt8) (outSize : ℤ) : WriteCall :=
  { kvec := kvec
    sbBread := fun i => disk.sbBread
      (if i = 1 ∧ DEFAULT_BLOCK_SIZE - v.fs.iSize % DEFAULT_BLOCK_SIZE ≤ kvec.length then v.moment + 1
      else v.moment)
    outSize := outSize }

/-- A write returns what `onefilefs_write_async` returns on the blocks, and leaves them as it does. -/
theorem wp_onefilefsWriteAsync (kvec : List UInt8) (outSize : ℤ) (hfree : v.mutex = false)
    (hreads : v.reads = []) :
    wp (disk.onefilefsWriteAsync kvec outSize)
      (fun ret t => ret = retOf (onefilefsWriteAsync (disk.writeCall v kvec outSize) v.fs).1 ∧
        t.fs = (onefilefsWriteAsync (disk.writeCall v kvec outSize) v.fs).2 ∧ t.mutex = false ∧
        (t.Missed → ret = - EIO ∧ t.fs = v.fs))
      (fun _ _ => False) v := by
  have hnone := not_missed_of_nil hreads
  rw [Disk.onefilefsWriteAsync, wp_bind, wp_mutexLock_iff hfree, wp_bind, wp_get]
  dsimp only
  by_cases hspare : DEFAULT_BLOCK_SIZE - v.fs.iSize % DEFAULT_BLOCK_SIZE ≤ kvec.length
  · have hcurrent : (disk.writeCall v kvec outSize).sbBread 0 = disk.sbBread v.moment := rfl
    have hnext : (disk.writeCall v kvec outSize).sbBread 1 = disk.sbBread (v.moment + 1) := by
      simp only [Disk.writeCall, true_and, if_pos hspare]
    rw [if_pos hspare, wp_bind, wp_bread_iff]
    constructor
    · intro hread
      have hvalue : onefilefsWriteAsync (disk.writeCall v kvec outSize) v.fs =
          writeBlock (disk.writeCall v kvec outSize) v.fs v.fs.iSize
            (toU64 (v.fs.iSize + (DEFAULT_BLOCK_SIZE - v.fs.iSize % DEFAULT_BLOCK_SIZE))) 0
            (toInt (toInt (v.fs.iSize / DEFAULT_BLOCK_SIZE + DEFAULT_INO_SIZE : ℕ) + 1)) := by
        rw [onefilefsWriteAsync, if_pos (by exact hspare), hcurrent,
          if_neg (ne_false_of_eq_true hread)]
      rw [if_neg (Option.some_ne_none _), hvalue]
      exact wp_writeBlock disk (disk.writeCall v kvec outSize) _ _ _ _ (congrFun hnext _)
        (not_missed_of_read hnone rfl)
    · intro hread
      have hvalue : onefilefsWriteAsync (disk.writeCall v kvec outSize) v.fs = (.error (- EIO), v.fs) := by
        rw [onefilefsWriteAsync, if_pos (by exact hspare), hcurrent, if_pos (by exact hread)]
      rw [if_pos rfl, wp_bind, wp_mutexUnlock, wp_pure, hvalue]
      exact ⟨rfl, rfl, rfl, fun _ => ⟨rfl, rfl⟩⟩
  · have honly : (disk.writeCall v kvec outSize).sbBread 1 = disk.sbBread v.moment := by
      simp only [Disk.writeCall, true_and, if_neg hspare]
    have hvalue : onefilefsWriteAsync (disk.writeCall v kvec outSize) v.fs =
        writeBlock (disk.writeCall v kvec outSize) v.fs v.fs.iSize v.fs.iSize
          (v.fs.iSize % DEFAULT_BLOCK_SIZE)
          (toInt (v.fs.iSize / DEFAULT_BLOCK_SIZE + DEFAULT_INO_SIZE : ℕ)) := if_neg hspare
    rw [if_neg hspare, hvalue]
    exact wp_writeBlock disk (disk.writeCall v kvec outSize) _ _ _ _ (congrFun honly _) hnone

end Operations

section Requests

variable {disk : Disk} {v : Volume}

/-- A lookup, a read and a write survive the blocks that cannot be read. -/
theorem survives_of_ne_mount {request : Request} (hfree : v.mutex = false) (hmount : request ≠ .mount) :
    disk.Survives request v := by
  have hreads : v.begin.reads = [] := rfl
  cases request with
  | mount => exact absurd rfl hmount
  | lookup name =>
    rw [Disk.Survives, Disk.serve, wp_map]
    refine wp_mono (wp_onefilefsLookup disk name hreads) ?_ fun _ _ h => h
    rintro ret t ⟨-, hmutex, hmissed⟩
    refine ⟨fun h => ⟨?_, (hmissed h).2⟩, hmutex.trans hfree, fun h => by cases h⟩
    rw [(hmissed h).1, Request.ioError]
  | read len off =>
    rw [Disk.Survives, Disk.serve, wp_map]
    refine wp_mono (wp_onefilefsRead disk len off (v := v.begin) hfree hreads) ?_ fun _ _ h => h
    rintro ⟨ret, bytes, next⟩ t ⟨-, hfs, hmutex, hmissed⟩
    refine ⟨fun h => ⟨?_, hfs⟩, hmutex, fun h => by cases h⟩
    obtain ⟨hret, hbytes, hnext⟩ := hmissed h
    rw [hret, hbytes, hnext, Request.ioError]
  | write kvec outSize =>
    rw [Disk.Survives, Disk.serve, wp_map]
    refine wp_mono (wp_onefilefsWriteAsync disk kvec outSize (v := v.begin) hfree hreads) ?_ fun _ _ h => h
    rintro ret t ⟨-, -, hmutex, hmissed⟩
    refine ⟨fun h => ⟨?_, (hmissed h).2⟩, hmutex, fun h => by cases h⟩
    rw [(hmissed h).1, Request.ioError]

/-- A mount that returns zero has found the magic number. -/
theorem magic_of_mounted {call : MountCall} {dev : Device} (h : singlefilefsFillSuper call dev = .ok 0) :
    dev.u64 SB_BLOCK_NUMBER offsetMagic = MAGIC := by
  by_contra hmagic
  rw [singlefilefsFillSuper] at h
  split at h
  · cases h
  · exact absurd (Except.ok.inj h) (by decide)

/-- A mount survives if and only if it can read block 0. -/
theorem mount_survives_iff (hfree : v.mutex = false) :
    disk.Survives .mount v ↔ disk.sbBread v.moment SB_BLOCK_NUMBER = true := by
  rw [Disk.Survives, Disk.serve, wp_map]
  constructor
  · intro h
    obtain ⟨ret, t, hrun, -⟩ := wp_returns h
    obtain ⟨hret, -⟩ := wp_ok (wp_singlefilefsFillSuper disk) hrun
    by_contra hread
    have hrefused : (disk.mountCall v.begin).sbBread SB_BLOCK_NUMBER = false :=
      Bool.eq_false_of_not_eq_true hread
    rw [singlefilefsFillSuper, if_pos hrefused] at hret
    cases hret
  · intro hread
    refine wp_mono (wp_singlefilefsFillSuper disk (v := v.begin)) ?_ ?_
    · rintro ret t ⟨hret, hfs, hmutex, hreads⟩
      have hkept : ¬ t.Missed := not_missed_of_read (not_missed_of_nil rfl) hreads
      refine ⟨fun h => absurd h hkept, hmutex.trans hfree, fun h => ⟨?_, ?_⟩⟩
      · rw [hreads]
        exact List.mem_append_right _ List.mem_cons_self
      · cases h
        exact magic_of_mounted hret
    · rintro e t ⟨-, hrefused, -⟩
      exact Bool.false_ne_true (hrefused.symm.trans hread)

/-- An operation survives if and only if, when it is a mount, it can read block 0. -/
theorem survives_iff (request : Request) (hfree : v.mutex = false) :
    disk.Survives request v ↔ disk.ReadsSuperblock request v := by
  by_cases hmount : request = .mount
  · subst hmount
    rw [mount_survives_iff hfree]
    exact ⟨fun h _ => h, fun h => h rfl⟩
  · exact iff_of_true (survives_of_ne_mount hfree hmount) fun h => absurd h hmount

/-- The mutex is free after every operation, a mount that faults included. -/
theorem step_mutex (request : Request) (hfree : v.mutex = false) :
    (disk.step request v).mutex = false := by
  refine wp_after (P := fun t => t.mutex = false) (m := disk.serve request) (s := v.begin) ?_
  by_cases hmount : request = .mount
  · subst hmount
    rw [Disk.serve, wp_map]
    refine wp_mono (wp_singlefilefsFillSuper disk (v := v.begin)) ?_ ?_
    · rintro ret t ⟨-, -, hmutex, -⟩
      exact hmutex.trans hfree
    · rintro e t ⟨-, -, -, hmutex⟩
      exact hmutex.trans hfree
  · exact wp_mono (survives_of_ne_mount hfree hmount) (fun _ _ h => h.2.1) fun _ _ h => h.elim

end Requests

/-- Along a run of requests to one device, every operation survives the blocks that it cannot read if
and only if every mount can read block 0. -/
theorem unreadable_blocks_survived_iff (disk : Disk) (fs : Refmonfs) (requests : List Request) :
    EveryStep disk.step disk.Survives requests (Volume.start fs) ↔
      EveryStep disk.step disk.ReadsSuperblock requests (Volume.start fs) :=
  everyStep_congr disk.step (I := fun v => v.mutex = false) (fun request _ h => step_mutex request h)
    (fun request _ h => survives_iff request h) requests rfl

section DeadDevice

/-- A device of which no block can be read. -/
def deadDisk : Disk := ⟨fun _ _ => false, fun _ _ => .fresh, fun _ => true, fun _ => 0⟩

/-- A mount of a device that cannot be read uses the missing buffer. -/
theorem unreadable_superblock_used :
    faultOf (deadDisk.serve .mount (Volume.start ⟨fun _ _ => 0, 0, 0⟩)) = some .nullDeref ∧
      ¬ EveryStep deadDisk.step deadDisk.Survives [.mount] (Volume.start ⟨fun _ _ => 0, 0, 0⟩) := by
  constructor
  · rfl
  · rintro ⟨h, -⟩
    exact h

end DeadDevice

end Refmon
