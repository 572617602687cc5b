import Refmon.Library.Blocks
import Refmon.Library.LittleEndian
import Refmon.Refmonfs

/-!
# Formatting, mounting and reading the log's file system

`singlefilemakefs.c` as it lays out a device, `singlefilefs_fill_super` and `onefilefs_lookup`
as they read the device back, and `onefilefs_read`. An unmount writes the dirty buffers and
drops the cached inode, so that only the blocks are left for the next mount. What the formatter
writes without having assigned it is arbitrary.
-/

namespace Refmon

open Blocks LittleEndian

def MAGIC : ℕ := 0x42424242
def SB_BLOCK_NUMBER : ℕ := 0
def SINGLEFILEFS_ROOT_INODE_NUMBER : ℕ := 10
def SINGLEFILEFS_FILE_INODE_NUMBER : ℕ := 1
def SINGLEFILEFS_INODES_BLOCK_NUMBER : ℕ := 1
def S_IFREG : ℕ := 0o100000
def EBADF : ℤ := 9

/-- The name of the log file in its directory. -/
def REFMON_FILE_LOG : CString := lit "blocked-ops.log"

/-- The blocks of a device. -/
abbrev Device := ℕ → Fin DEFAULT_BLOCK_SIZE → UInt8

/-- The block size is not zero. -/
theorem blockSize_pos : 0 < DEFAULT_BLOCK_SIZE := by decide

/-- A `uint64_t` of a structure that lies in a block. -/
def Device.u64 (dev : Device) (block field : ℕ) : ℕ :=
  decode (fetch blockSize_pos dev (block * DEFAULT_BLOCK_SIZE + field) 8)

/-- The offset of `magic` in `struct onefilefs_sb_info`. -/
def offsetMagic : ℕ := 8

/-- The offset of `file_size` in `struct onefilefs_inode`. -/
def offsetFileSize : ℕ := 24

/-- The first line of the log. -/
def fileBody : CString := lit "tgid\ttid\t\tuid\t\teuid\tpath\t\t\tsha\n"

/-- One run of `singlefilemakefs`: the arguments, whether the device opens, how many bytes each
of its four writes stores, and what it finds in memory, by the position it is written to. -/
structure MakefsRun where
  argc : ℤ
  opens : Bool
  ret : Fin 4 → ℤ
  memory : ℕ → UInt8

/-- The bytes that nothing assigned, for `count` positions of the device. -/
def MakefsRun.unassigned (call : MakefsRun) (first count : ℕ) : List UInt8 :=
  (List.range count).map fun i => call.memory (first + i)

/-- `struct onefilefs_sb_info`, of which three fields are assigned. -/
def MakefsRun.sb (call : MakefsRun) : List UInt8 :=
  encode 8 1 ++ encode 8 MAGIC ++ encode 8 DEFAULT_BLOCK_SIZE ++
    call.unassigned 24 (DEFAULT_BLOCK_SIZE - 24)

/-- `struct onefilefs_inode`, up to the file size. -/
def MakefsRun.inodeHead (call : MakefsRun) : List UInt8 :=
  encode 4 S_IFREG ++ call.unassigned (DEFAULT_BLOCK_SIZE + 4) 4 ++
    encode 8 SINGLEFILEFS_FILE_INODE_NUMBER ++ call.unassigned (DEFAULT_BLOCK_SIZE + 16) 8

/-- `struct onefilefs_inode` of the log file. -/
def MakefsRun.fileInode (call : MakefsRun) : List UInt8 :=
  call.inodeHead ++ encode 8 fileBody.length

/-- The rest of the inode's block. -/
def MakefsRun.blockPadding (call : MakefsRun) : List UInt8 :=
  call.unassigned (DEFAULT_BLOCK_SIZE + 32) (DEFAULT_BLOCK_SIZE - 32)

/-- `write` on the device's descriptor stores the bytes it reports. -/
def Device.write (dev : Device) (position : ℕ) (bytes : List UInt8) (ret : ℤ) : Device :=
  store dev position (bytes.take ret.toNat)

/-- `main` of `singlefilemakefs.c`: its exit status and the device it leaves. A superblock of
which no byte is written ends it with status zero. -/
def singlefilemakefs (call : MakefsRun) (dev : Device) : ℤ × Device :=
  if call.argc ≠ 2 then (-1, dev)
  else if call.opens = false then (-1, dev)
  else
    let dev := dev.write 0 call.sb (call.ret 0)
    if call.ret 0 ≠ DEFAULT_BLOCK_SIZE then (call.ret 0, dev)
    else
      let dev := dev.write DEFAULT_BLOCK_SIZE call.fileInode (call.ret 1)
      if call.ret 1 ≠ call.fileInode.length then (-1, dev)
      else
        let dev := dev.write (DEFAULT_BLOCK_SIZE + 32) call.blockPadding (call.ret 2)
        if call.ret 2 ≠ call.blockPadding.length then (-1, dev)
        else
          let dev := dev.write (2 * DEFAULT_BLOCK_SIZE) fileBody.bytes (call.ret 3)
          if call.ret 3 ≠ fileBody.bytes.length then (-1, dev) else (0, dev)

/-- A device that `singlefilemakefs` has formatted: it ended with status zero after it wrote the
superblock. -/
def Formatted (dev : Device) : Prop :=
  ∃ (call : MakefsRun) (before : Device),
    call.ret 0 = DEFAULT_BLOCK_SIZE ∧ singlefilemakefs call before = (0, dev)

/-- What the kernel answers while the device is mounted and the log file is looked up. -/
structure MountCall where
  sbBread : ℕ → Bool
  igetLocked : ℕ → Bool
  dMakeRoot : Bool

/-- `singlefilefs_fill_super`. The test after `sb_bread` is of `sb` and not of `bh`, so a
superblock that cannot be read is dereferenced. -/
def singlefilefsFillSuper (call : MountCall) (dev : Device) : Except Fault ℤ :=
  if call.sbBread SB_BLOCK_NUMBER = false then .error .nullDeref
  else if dev.u64 SB_BLOCK_NUMBER offsetMagic ≠ MAGIC then .ok (-EBADF)
  else if call.igetLocked SINGLEFILEFS_ROOT_INODE_NUMBER = false then .ok (-ENOMEM)
  else if call.dMakeRoot = false then .ok (-ENOMEM)
  else .ok 0

/-- `onefilefs_lookup`: an error, or whether the child dentry is returned, and the size in the
cached inode of the log file, if there is one. -/
def onefilefsLookup (call : MountCall) (dev : Device) (name : CString) (cached : Option ℕ) :
    Except ℤ Bool × Option ℕ :=
  if name = REFMON_FILE_LOG then
    if call.igetLocked SINGLEFILEFS_FILE_INODE_NUMBER = false then (.error (-ENOMEM), cached)
    else
      match cached with
      | some size => (.ok true, some size)
      | none =>
        if call.sbBread SINGLEFILEFS_INODES_BLOCK_NUMBER = false then (.error (- EIO), none)
        else (.ok true, some (dev.u64 SINGLEFILEFS_INODES_BLOCK_NUMBER offsetFileSize))
  else (.ok false, cached)

/-- A mount followed by a lookup of the log file, when both succeed. -/
def mountLog (call : MountCall) (dev : Device) : Option Refmonfs :=
  match singlefilefsFillSuper call dev with
  | .ok 0 =>
    match onefilefsLookup call dev REFMON_FILE_LOG none with
    | (.ok true, some size) => some ⟨dev, size, 0⟩
    | _ => none
  | _ => none

/-- An unmount, and a mount with lookup after it. -/
def remountLog (call : MountCall) (fs : Refmonfs) : Option Refmonfs := mountLog call fs.blocks

/-- One call of `onefilefs_read`: where and how much, whether `sb_bread` gives a buffer head,
and how many bytes `copy_to_user` leaves out. -/
structure ReadCall where
  len : ℕ
  off : ℕ
  sbBread : ℕ → Bool
  uncopied : ℕ

/-- `onefilefs_read`: an error, or the bytes that reach the user and the new offset. -/
def onefilefsRead (call : ReadCall) (fs : Refmonfs) : Except ℤ (List UInt8 × ℕ) :=
  if call.off ≥ fs.iSize then .ok ([], call.off)
  else
    let len := if toU64 (call.off + call.len) > fs.iSize then fs.iSize - call.off else call.len
    let offset := call.off % DEFAULT_BLOCK_SIZE
    let len := if toU64 (offset + len) > DEFAULT_BLOCK_SIZE then DEFAULT_BLOCK_SIZE - offset else len
    let blockToRead := toInt (call.off / DEFAULT_BLOCK_SIZE + DEFAULT_INO_SIZE : ℕ)
    if call.sbBread (sector blockToRead) = false then .error (- EIO)
    else
      let copied := len - call.uncopied
      .ok (((List.ofFn (fs.blocks (sector blockToRead))).drop offset).take copied, call.off + copied)

/-- A write that reports all its bytes stores them. -/
theorem write_all (dev : Device) (position : ℕ) (bytes : List UInt8) {ret : ℤ} (h : ret = bytes.length) :
    dev.write position bytes ret = store dev position bytes := by
  rw [Device.write, h, Int.toNat_natCast, List.take_length]

@[simp] theorem unassigned_length (call : MakefsRun) (first count : ℕ) :
    (call.unassigned first count).length = count := by
  simp [MakefsRun.unassigned]

theorem sb_length (call : MakefsRun) : call.sb.length = DEFAULT_BLOCK_SIZE := by
  simp [MakefsRun.sb, DEFAULT_BLOCK_SIZE]

theorem inodeHead_length (call : MakefsRun) : call.inodeHead.length = offsetFileSize := by
  simp [MakefsRun.inodeHead, offsetFileSize]

/-- A formatted device is laid out as four pieces over what was there. -/
theorem Formatted.layout {dev : Device} (h : Formatted dev) :
    ∃ call before, dev = store (store (store (store before 0 (MakefsRun.sb call)) DEFAULT_BLOCK_SIZE
      call.fileInode) (DEFAULT_BLOCK_SIZE + 32) call.blockPadding) (2 * DEFAULT_BLOCK_SIZE)
        fileBody.bytes := by
  obtain ⟨call, before, hsb, hrun⟩ := h
  refine ⟨call, before, ?_⟩
  have hfailed (m : Device) : ((-1 : ℤ), m) ≠ (0, dev) := fun heq => absurd (Prod.mk.inj heq).1 (by decide)
  unfold singlefilemakefs at hrun
  split at hrun
  · exact absurd hrun (hfailed _)
  split at hrun
  · exact absurd hrun (hfailed _)
  dsimp only at hrun
  rw [if_neg (not_not.mpr hsb)] at hrun
  split at hrun
  · exact absurd hrun (hfailed _)
  rename_i hinode
  split at hrun
  · exact absurd hrun (hfailed _)
  rename_i hpadding
  split at hrun
  · exact absurd hrun (hfailed _)
  rename_i hbody
  have hsblength : call.ret 0 = call.sb.length := by rw [hsb, sb_length]
  rw [write_all _ _ _ hsblength, write_all _ _ _ (not_not.mp hinode), write_all _ _ _ (not_not.mp hpadding),
    write_all _ _ _ (not_not.mp hbody)] at hrun
  exact (Prod.mk.inj hrun).2.symm

/-- A field is read as the number it was encoded from, whatever is written behind it. -/
theorem u64_store (dev : Device) (block field value : ℕ) (front rest : List UInt8)
    (hfront : front.length = field) (hvalue : value < 256 ^ 8) :
    Device.u64 (store dev (block * DEFAULT_BLOCK_SIZE) (front ++ encode 8 value ++ rest)) block field =
      value := by
  have hread := fetch_store blockSize_pos dev (block * DEFAULT_BLOCK_SIZE) front (encode 8 value) rest
  rw [encode_length, hfront] at hread
  rw [Device.u64, hread, decode_encode hvalue]

/-- A write that starts behind a field or ends before it leaves the field. -/
theorem u64_store_apart (dev : Device) {block field start : ℕ} {bytes : List UInt8}
    (h : block * DEFAULT_BLOCK_SIZE + field + 8 ≤ start ∨
      start + bytes.length ≤ block * DEFAULT_BLOCK_SIZE + field) :
    Device.u64 (store dev start bytes) block field = dev.u64 block field := by
  rw [Device.u64, Device.u64, fetch_store_apart blockSize_pos dev h]

/-- The formatter leaves its magic number in the superblock, and in the inode the size of the
first line. -/
theorem Formatted.fields {dev : Device} (h : Formatted dev) :
    dev.u64 SB_BLOCK_NUMBER offsetMagic = MAGIC ∧
      dev.u64 SINGLEFILEFS_INODES_BLOCK_NUMBER offsetFileSize = fileBody.length := by
  obtain ⟨call, before, hdev⟩ := h.layout
  subst hdev
  constructor
  · rw [u64_store_apart, u64_store_apart, u64_store_apart]
    · have hmagic := u64_store before 0 offsetMagic MAGIC (encode 8 1) (encode 8 DEFAULT_BLOCK_SIZE ++
        call.unassigned 24 (DEFAULT_BLOCK_SIZE - 24)) (encode_length _ _) (by decide)
      rw [Nat.zero_mul, ← List.append_assoc] at hmagic
      exact hmagic
    all_goals exact Or.inl (by decide)
  · rw [u64_store_apart, u64_store_apart]
    · have hsize := u64_store (store before 0 call.sb) SINGLEFILEFS_INODES_BLOCK_NUMBER offsetFileSize
        fileBody.length call.inodeHead [] (inodeHead_length call) (by decide)
      rw [List.append_nil] at hsize
      exact hsize
    all_goals exact Or.inl (by decide)

end Refmon
