import Refmon.Kernel

/-!
# Appending to the log file

`onefilefs_write_async` of `refmonfs/file.c`, the only way the log file is written. Sizes and
offsets are 64-bit patterns of non-negative values; the index of the block to write is an
`int`, which `sb_bread` takes as a 64-bit sector number.
-/

namespace Refmon

abbrev DEFAULT_BLOCK_SIZE : ℕ := 4096
def DEFAULT_INO_SIZE : ℕ := 2

/-- The device of the file system and the cached inode of the log file. -/
structure Refmonfs where
  blocks : ℕ → Fin DEFAULT_BLOCK_SIZE → UInt8
  iSize : ℕ
  fPos : ℕ

/-- One call on a single-segment buffer: the bytes of the segment, whether each of the two
`sb_bread` calls gives a buffer head for a sector, and the value that lies in `out_size`, which
nothing assigns. -/
structure WriteCall where
  kvec : List UInt8
  sbBread : Fin 2 → ℕ → Bool
  outSize : ℤ

/-- The conversion to `int`. -/
def toInt (value : ℤ) : ℤ := Int.bmod value (2 ^ 32)

/-- The conversion of an `int` to a sector number. -/
def sector (block : ℤ) : ℕ := (block % 2 ^ 64).toNat

/-- The conversion to a 64-bit unsigned integer. -/
def toU64 (value : ℕ) : ℕ := value % 2 ^ 64

/-- `memcpy` into the data of one block. -/
def Refmonfs.memcpy (fs : Refmonfs) (index offset : ℕ) (bytes : List UInt8) : Refmonfs :=
  { fs with blocks := Function.update fs.blocks index fun i =>
      if offset ≤ i.val ∧ i.val < offset + bytes.length then bytes.getD (i.val - offset) 0
      else fs.blocks index i }

/-- The second half of `onefilefs_write_async`, once offset and block are settled. -/
def writeBlock (call : WriteCall) (fs : Refmonfs) (fileSize offset blockOffset : ℕ)
    (blockToWrite : ℤ) : Except ℤ ℤ × Refmonfs :=
  if call.sbBread 1 (sector blockToWrite) = false then (.error (- EIO), fs)
  else
    let fs := fs.memcpy (sector blockToWrite) blockOffset call.kvec
    let written := toU64 (offset + call.kvec.length)
    let fs := if written > fileSize then { fs with iSize := written } else fs
    (.ok call.outSize, { fs with fPos := offset })

/-- `onefilefs_write_async`. -/
def onefilefsWriteAsync (call : WriteCall) (fs : Refmonfs) : Except ℤ ℤ × Refmonfs :=
  let fileSize := fs.iSize
  let toBeWritten := call.kvec.length
  let blockOffset := fileSize % DEFAULT_BLOCK_SIZE
  let blockToWrite := toInt (fileSize / DEFAULT_BLOCK_SIZE + DEFAULT_INO_SIZE : ℕ)
  let spareSpace := DEFAULT_BLOCK_SIZE - blockOffset
  if spareSpace ≤ toBeWritten then
    if call.sbBread 0 (sector blockToWrite) = false then (.error (- EIO), fs)
    else writeBlock call fs fileSize (toU64 (fileSize + spareSpace)) 0 (toInt (blockToWrite + 1))
  else writeBlock call fs fileSize fileSize blockOffset blockToWrite

/-- The byte of the file at a position, block after block from the first data block on. -/
def Refmonfs.byte (fs : Refmonfs) (position : ℕ) : UInt8 :=
  fs.blocks (position / DEFAULT_BLOCK_SIZE + DEFAULT_INO_SIZE)
    ⟨position % DEFAULT_BLOCK_SIZE, Nat.mod_lt _ (by decide)⟩

end Refmon
