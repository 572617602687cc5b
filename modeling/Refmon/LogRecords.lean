import Refmon.Library.Extents
import Refmon.Library.Runs
import Refmon.Refmonfs
import Mathlib.Data.List.GetD

/-!
# Log records stay intact

A record that is appended lies in one block, after everything that was in the file before. The
proof needs the index of that block to be an `int`: on a larger file the conversion gives
another block, and one of the first blocks can be overwritten.
-/

namespace Refmon

open Extents Runs

/-- Where the record goes: the end of the file, or the next block when too little is spare. -/
def recordOffset (iSize length : ℕ) : ℕ :=
  if DEFAULT_BLOCK_SIZE - iSize % DEFAULT_BLOCK_SIZE ≤ length then
    iSize + (DEFAULT_BLOCK_SIZE - iSize % DEFAULT_BLOCK_SIZE)
  else iSize

/-- The index of the block where the record goes. -/
def recordBlock (iSize length : ℕ) : ℕ := recordOffset iSize length / DEFAULT_BLOCK_SIZE + DEFAULT_INO_SIZE

/-- Incrementing an index that was converted to `int` is converting the incremented index. -/
theorem toInt_succ (value : ℕ) : toInt (toInt value + 1) = toInt ((value + 1 : ℕ) : ℤ) := by
  rw [Int.natCast_succ]
  exact Int.bmod_add_bmod

/-- An index that is an `int` is its own sector number. -/
theorem sector_toInt {index : ℕ} (h : index < 2 ^ 31) : sector (toInt index) = index := by
  have hfits : toInt index = index := by
    unfold toInt
    apply Int.bmod_eq_of_le <;> omega
  rw [sector, hfits]
  omega

/-- The record lies in one block. -/
theorem recordOffset_block {iSize length : ℕ} (hlength : length ≤ DEFAULT_BLOCK_SIZE) :
    recordOffset iSize length % DEFAULT_BLOCK_SIZE + length ≤ DEFAULT_BLOCK_SIZE := by
  unfold recordOffset DEFAULT_BLOCK_SIZE at *
  split <;> omega

/-- The record goes after everything in the file. -/
theorem le_recordOffset (iSize length : ℕ) : iSize ≤ recordOffset iSize length := by
  unfold recordOffset
  split <;> omega

/-- One byte after a copy into a block. -/
theorem memcpy_blocks (fs : Refmonfs) (index offset : ℕ) (bytes : List UInt8) (index' : ℕ)
    (i : Fin DEFAULT_BLOCK_SIZE) :
    (fs.memcpy index offset bytes).blocks index' i =
      if index' = index ∧ offset ≤ i.val ∧ i.val < offset + bytes.length then
        bytes.getD (i.val - offset) 0
      else fs.blocks index' i := by
  by_cases hindex : index' = index
  · subst hindex
    simp [Refmonfs.memcpy]
  · simp [Refmonfs.memcpy, hindex]

/-- The file after a copy into the block of a position: the copied bytes, and the old ones
elsewhere. -/
theorem byte_memcpy (fs : Refmonfs) (offset : ℕ) (bytes : List UInt8)
    (hblock : offset % DEFAULT_BLOCK_SIZE + bytes.length ≤ DEFAULT_BLOCK_SIZE) (position : ℕ) :
    (fs.memcpy (offset / DEFAULT_BLOCK_SIZE + DEFAULT_INO_SIZE) (offset % DEFAULT_BLOCK_SIZE)
        bytes).byte position =
      if offset ≤ position ∧ position < offset + bytes.length then bytes.getD (position - offset) 0
      else fs.byte position := by
  rw [Refmonfs.byte, memcpy_blocks]
  simp only [Nat.add_right_cancel_iff]
  unfold DEFAULT_BLOCK_SIZE at *
  by_cases hin : offset ≤ position ∧ position < offset + bytes.length
  · rw [if_pos hin, if_pos (by omega)]
    congr 1
    omega
  · rw [if_neg hin, if_neg (by omega)]
    rfl

/-- The block of the record has an index that is an `int`, or the block with the converted
index cannot be read. -/
def WriteCall.ReachesBlock (call : WriteCall) (fs : Refmonfs) : Prop :=
  recordBlock fs.iSize call.kvec.length < 2 ^ 31 ∨
    call.sbBread 1 (sector (toInt (recordBlock fs.iSize call.kvec.length))) = false

/-- The segment is not empty and fits a block. -/
def WriteCall.FitsBlock (call : WriteCall) : Prop :=
  1 ≤ call.kvec.length ∧ call.kvec.length ≤ DEFAULT_BLOCK_SIZE

/-- The end of the block that a position lies in is the start of the next block. -/
theorem nextBlock_eq (position : ℕ) :
    (position + (DEFAULT_BLOCK_SIZE - position % DEFAULT_BLOCK_SIZE)) % DEFAULT_BLOCK_SIZE = 0 ∧
      (position + (DEFAULT_BLOCK_SIZE - position % DEFAULT_BLOCK_SIZE)) / DEFAULT_BLOCK_SIZE =
        position / DEFAULT_BLOCK_SIZE + 1 := by
  unfold DEFAULT_BLOCK_SIZE
  omega

/-- The bytes have been appended at an offset: they are there, the file ends behind them, and neither
what was in the file nor the two blocks before its data have changed. -/
def Appended (fs after : Refmonfs) (offset : ℕ) (bytes : List UInt8) : Prop :=
  after.iSize = offset + bytes.length ∧ Holds after.byte offset bytes ∧
    (∀ position, position < fs.iSize → after.byte position = fs.byte position) ∧
    ∀ index, index < DEFAULT_INO_SIZE → after.blocks index = fs.blocks index

/-- The index of the block in which a file of this size ends. -/
def currentBlock (iSize : ℕ) : ℕ := iSize / DEFAULT_BLOCK_SIZE + DEFAULT_INO_SIZE

/-- A block that a write of this length asks for cannot be read: the one in which the file ends, if
it is left for the next one, or the one that the segment is copied to. -/
def Unreadable (sbBread : Fin 2 → ℕ → Bool) (iSize length : ℕ) : Prop :=
  (DEFAULT_BLOCK_SIZE - iSize % DEFAULT_BLOCK_SIZE ≤ length ∧
      sbBread 0 (sector (toInt (currentBlock iSize))) = false) ∨
    sbBread 1 (sector (toInt (recordBlock iSize length))) = false

/-- The arguments of the `memcpy` in `onefilefs_write_async`, if it comes to it: the sector and the
offset in its block. -/
def memcpyTarget (call : WriteCall) (fs : Refmonfs) : Option (ℕ × ℕ) :=
  let blockOffset := fs.iSize % DEFAULT_BLOCK_SIZE
  let blockToWrite := toInt (fs.iSize / DEFAULT_BLOCK_SIZE + DEFAULT_INO_SIZE : ℕ)
  let spareSpace := DEFAULT_BLOCK_SIZE - blockOffset
  if spareSpace ≤ call.kvec.length then
    if call.sbBread 0 (sector blockToWrite) = false then none
    else if call.sbBread 1 (sector (toInt (blockToWrite + 1))) = false then none
    else some (sector (toInt (blockToWrite + 1)), 0)
  else if call.sbBread 1 (sector blockToWrite) = false then none
  else some (sector blockToWrite, blockOffset)

/-- The file after a segment of up to a block has been copied. -/
def Refmonfs.recorded (fs : Refmonfs) (bytes : List UInt8) : Refmonfs :=
  { fs.memcpy (sector (toInt (recordBlock fs.iSize bytes.length)))
      (recordOffset fs.iSize bytes.length % DEFAULT_BLOCK_SIZE) bytes with
    iSize := recordOffset fs.iSize bytes.length + bytes.length
    fPos := recordOffset fs.iSize bytes.length }

/-- A call finds a block that it cannot read, and does nothing, or both ways through the function end in
the second half, at the block of the record. -/
theorem onefilefsWriteAsync_cases (call : WriteCall) (fs : Refmonfs) :
    Unreadable call.sbBread fs.iSize call.kvec.length ∧
        onefilefsWriteAsync call fs = (.error (- EIO), fs) ∧ memcpyTarget call fs = none ∨
      ¬ Unreadable call.sbBread fs.iSize call.kvec.length ∧
        onefilefsWriteAsync call fs = writeBlock call fs fs.iSize
          (if DEFAULT_BLOCK_SIZE - fs.iSize % DEFAULT_BLOCK_SIZE ≤ call.kvec.length then
            toU64 (recordOffset fs.iSize call.kvec.length) else fs.iSize)
          (recordOffset fs.iSize call.kvec.length % DEFAULT_BLOCK_SIZE)
          (toInt (recordBlock fs.iSize call.kvec.length)) ∧
        memcpyTarget call fs = some (sector (toInt (recordBlock fs.iSize call.kvec.length)),
          recordOffset fs.iSize call.kvec.length % DEFAULT_BLOCK_SIZE) := by
  unfold onefilefsWriteAsync memcpyTarget Unreadable recordBlock recordOffset currentBlock
  dsimp only
  split
  · rename_i hspare
    rw [toInt_succ, (nextBlock_eq fs.iSize).1, (nextBlock_eq fs.iSize).2, Nat.add_right_comm]
    split
    · rename_i hcurrent
      exact Or.inl ⟨Or.inl ⟨hspare, hcurrent⟩, rfl, rfl⟩
    · rename_i hcurrent
      split
      · rename_i hnext
        refine Or.inl ⟨Or.inr hnext, ?_, rfl⟩
        rw [writeBlock, if_pos hnext]
      · rename_i hnext
        refine Or.inr ⟨?_, rfl, rfl⟩
        rintro (⟨-, h⟩ | h)
        · exact hcurrent h
        · exact hnext h
  · rename_i hspare
    split
    · rename_i hcurrent
      refine Or.inl ⟨Or.inr hcurrent, ?_, rfl⟩
      rw [writeBlock, if_pos hcurrent]
    · rename_i hcurrent
      refine Or.inr ⟨?_, rfl, rfl⟩
      rintro (⟨h, -⟩ | h)
      · exact hspare h
      · exact hcurrent h

/-- The second half of the function changes the blocks by its copy. -/
theorem writeBlock_blocks {call : WriteCall} {blockToWrite : ℤ} (fs : Refmonfs)
    (fileSize offset blockOffset : ℕ) (h : ¬ call.sbBread 1 (sector blockToWrite) = false) :
    (writeBlock call fs fileSize offset blockOffset blockToWrite).2.blocks =
      (fs.memcpy (sector blockToWrite) blockOffset call.kvec).blocks := by
  rw [writeBlock, if_neg h]
  dsimp only
  split <;> rfl

/-- The call changes the blocks by the copy to its target. -/
theorem blocks_of_memcpyTarget (call : WriteCall) (fs : Refmonfs) :
    (onefilefsWriteAsync call fs).2.blocks = match memcpyTarget call fs with
      | none => fs.blocks
      | some (index, offset) => (fs.memcpy index offset call.kvec).blocks := by
  rcases onefilefsWriteAsync_cases call fs with ⟨-, hwrite, htarget⟩ | ⟨hread, hwrite, htarget⟩
  · rw [hwrite, htarget]
  · rw [hwrite, htarget, writeBlock_blocks _ _ _ _ fun h => hread (Or.inr h)]

/-- A call that can read what it asks for records its segment, if that ends at a 64-bit position. -/
theorem write_readable {call : WriteCall} {fs : Refmonfs}
    (hsmall : recordOffset fs.iSize call.kvec.length + call.kvec.length < 2 ^ 64)
    (hread : ¬ Unreadable call.sbBread fs.iSize call.kvec.length) :
    onefilefsWriteAsync call fs = (.ok call.outSize, fs.recorded call.kvec) := by
  rcases onefilefsWriteAsync_cases call fs with ⟨h, -⟩ | ⟨-, hwrite, -⟩
  · exact absurd h hread
  have hsame : (if DEFAULT_BLOCK_SIZE - fs.iSize % DEFAULT_BLOCK_SIZE ≤ call.kvec.length then
      toU64 (recordOffset fs.iSize call.kvec.length) else fs.iSize) =
        recordOffset fs.iSize call.kvec.length := by
    split
    · exact Nat.mod_eq_of_lt (by omega)
    · rename_i hspare
      rw [recordOffset, if_neg hspare]
  have hend : toU64 (recordOffset fs.iSize call.kvec.length + call.kvec.length) =
      recordOffset fs.iSize call.kvec.length + call.kvec.length := Nat.mod_eq_of_lt hsmall
  have hle := le_recordOffset fs.iSize call.kvec.length
  rw [hwrite, writeBlock, if_neg fun h => hread (Or.inr h), hsame, hend]
  dsimp only
  split
  · rfl
  · rename_i hgrows
    have hsize : recordOffset fs.iSize call.kvec.length + call.kvec.length = fs.iSize := by omega
    rw [Refmonfs.recorded, hsize]
    rfl

theorem recorded_blocks (fs : Refmonfs) (bytes : List UInt8) :
    (fs.recorded bytes).blocks = (fs.memcpy (sector (toInt (recordBlock fs.iSize bytes.length)))
      (recordOffset fs.iSize bytes.length % DEFAULT_BLOCK_SIZE) bytes).blocks := rfl

/-- The segment has been appended where the record goes, if that block has an index that is an `int`
or nothing is copied. -/
theorem recorded_appended (fs : Refmonfs) {bytes : List UInt8} (hlength : bytes.length ≤ DEFAULT_BLOCK_SIZE)
    (hindex : bytes.length = 0 ∨ recordBlock fs.iSize bytes.length < 2 ^ 31) :
    Appended fs (fs.recorded bytes) (recordOffset fs.iSize bytes.length) bytes := by
  rcases hindex with hnil | hindex
  · have hblocks : (fs.recorded bytes).blocks = fs.blocks := by
      funext index i
      rw [recorded_blocks, memcpy_blocks, if_neg (by omega)]
    have hbyte : (fs.recorded bytes).byte = fs.byte := by
      funext position
      rw [Refmonfs.byte, hblocks, Refmonfs.byte]
    exact ⟨rfl, fun i hi => by omega, fun _ _ => by rw [hbyte], fun _ _ => by rw [hblocks]⟩
  · have hbyte (position : ℕ) : (fs.recorded bytes).byte position =
        if recordOffset fs.iSize bytes.length ≤ position ∧
            position < recordOffset fs.iSize bytes.length + bytes.length then
          bytes.getD (position - recordOffset fs.iSize bytes.length) 0
        else fs.byte position := by
      rw [← byte_memcpy fs _ _ (recordOffset_block hlength), Refmonfs.byte, Refmonfs.recorded,
        sector_toInt hindex]
      rfl
    have hle := le_recordOffset fs.iSize bytes.length
    refine ⟨rfl, ?_, ?_, ?_⟩
    · intro i hi
      rw [hbyte, if_pos (by omega), Nat.add_sub_cancel_left, List.getD_eq_getElem _ _ hi]
    · intro position hposition
      rw [hbyte, if_neg (by omega)]
    · intro index hlow
      rw [Refmonfs.recorded, sector_toInt hindex]
      apply Function.update_of_ne
      exact (Nat.lt_of_lt_of_le hlow (Nat.le_add_left _ _)).ne

/-- A write fails without an effect, or appends its record: the file grows to the end of the
record, which lies in one block after everything that was there and holds the bytes of the
segment, and nothing below the old size changes. -/
theorem write_step (call : WriteCall) (fs : Refmonfs) (hfits : call.FitsBlock)
    (hreaches : call.ReachesBlock fs) :
    onefilefsWriteAsync call fs = (.error (- EIO), fs) ∨
      ∃ after, onefilefsWriteAsync call fs = (.ok call.outSize, after) ∧
        Appended fs after (recordOffset fs.iSize call.kvec.length) call.kvec := by
  rcases onefilefsWriteAsync_cases call fs with ⟨-, hfail, -⟩ | ⟨hread, -⟩
  · exact Or.inl hfail
  have hindex := hreaches.resolve_right fun hunreadable => hread (Or.inr hunreadable)
  have hlength := hfits.2
  have hsmall : recordOffset fs.iSize call.kvec.length + call.kvec.length < 2 ^ 64 := by
    unfold recordBlock at hindex
    unfold DEFAULT_BLOCK_SIZE DEFAULT_INO_SIZE at *
    omega
  exact Or.inr ⟨_, write_readable hsmall hread, recorded_appended fs hlength (Or.inr hindex)⟩

/-- A step of a run of writes. -/
def writeStep (call : WriteCall) (fs : Refmonfs) : Refmonfs := (onefilefsWriteAsync call fs).2

/-- The records whose writes do not fail, in the order of the calls. -/
def appendedRecords : List WriteCall → Refmonfs → List (List UInt8)
  | [], _ => []
  | call :: rest, fs =>
    match onefilefsWriteAsync call fs with
    | (.ok _, after) => call.kvec :: appendedRecords rest after
    | (.error _, after) => appendedRecords rest after

/-- The extent lies in one block. -/
def OneBlock (extent : ℕ × List UInt8) : Prop :=
  extent.1 % DEFAULT_BLOCK_SIZE + extent.2.length ≤ DEFAULT_BLOCK_SIZE

/-- A failed write changes nothing. -/
theorem onefilefsWriteAsync_error {call : WriteCall} {fs after : Refmonfs} {err : ℤ}
    (h : onefilefsWriteAsync call fs = (.error err, after)) : after = fs := by
  rcases onefilefsWriteAsync_cases call fs with ⟨-, hfail, -⟩ | ⟨hread, hwrite, -⟩
  · rw [h] at hfail
    exact (Prod.mk.inj hfail).2
  · rw [h, writeBlock, if_neg fun hunreadable => hread (Or.inr hunreadable)] at hwrite
    cases (Prod.mk.inj hwrite).1

/-- A run of writes lays its records out behind the old end of the file. -/
theorem run_appends (calls : List WriteCall) (fs : Refmonfs)
    (hfits : ∀ call ∈ calls, call.FitsBlock)
    (hreaches : EveryStep writeStep WriteCall.ReachesBlock calls fs) :
    ∃ extents, extents.map Prod.snd = appendedRecords calls fs ∧
      Laid (run writeStep calls fs).byte fs.iSize extents (run writeStep calls fs).iSize ∧
      (∀ extent ∈ extents, OneBlock extent) ∧
      (∀ position, position < fs.iSize → (run writeStep calls fs).byte position = fs.byte position) ∧
      ∀ index, index < DEFAULT_INO_SIZE → (run writeStep calls fs).blocks index = fs.blocks index := by
  induction calls generalizing fs with
  | nil => exact ⟨[], rfl, rfl, fun _ h => (by cases h), fun _ _ => rfl, fun _ _ => rfl⟩
  | cons call rest ih =>
    have hcall := hfits call List.mem_cons_self
    obtain ⟨extents, hrecords, hlaid, hone, hbytes, hblocks⟩ :=
      ih (writeStep call fs) (fun c hc => hfits c (List.mem_cons_of_mem call hc)) hreaches.2
    rw [run_cons]
    rcases write_step call fs hcall hreaches.1 with hfail | ⟨after, hwrite, hsize, hholds, hold, hlow⟩
    · have hstep : writeStep call fs = fs := by rw [writeStep, hfail]
      rw [hstep] at hrecords hlaid hbytes hblocks ⊢
      refine ⟨extents, ?_, hlaid, hone, hbytes, hblocks⟩
      rw [appendedRecords, hfail]
      exact hrecords
    · have hstep : writeStep call fs = after := by rw [writeStep, hwrite]
      rw [hstep] at hrecords hlaid hbytes hblocks ⊢
      set offset := recordOffset fs.iSize call.kvec.length with hoffset
      have hle : fs.iSize ≤ offset := le_recordOffset _ _
      refine ⟨(offset, call.kvec) :: extents, ?_, ⟨hle, ?_, ?_⟩, ?_, ?_, ?_⟩
      · rw [appendedRecords, hwrite, List.map_cons, hrecords]
      · apply hholds.congr
        intro position hposition
        exact hbytes position (by rw [hsize]; exact hposition)
      · rw [← hsize]
        exact hlaid
      · intro extent hmem
        rcases List.mem_cons.mp hmem with rfl | hmem
        · exact recordOffset_block hcall.2
        · exact hone extent hmem
      · intro position hposition
        rw [hbytes position (by omega), hold position hposition]
      · intro index hindex
        rw [hblocks index hindex, hlow index hindex]

/-- Over a run of writes on segments of up to a block, each of which finds its block, the records
that do not fail lie in the file in call order: each in one block, after the old end of the file
and after the record before it, and ending where the file ends if it is the last. What the file
held before, and the first two blocks, are unchanged, and failed writes change nothing. -/
theorem log_records_intact (calls : List WriteCall) (fs : Refmonfs)
    (hfits : ∀ call ∈ calls, call.FitsBlock)
    (hreaches : EveryStep writeStep WriteCall.ReachesBlock calls fs) :
    (∃ extents, extents.map Prod.snd = appendedRecords calls fs ∧
        Laid (run writeStep calls fs).byte fs.iSize extents (run writeStep calls fs).iSize ∧
        ∀ extent ∈ extents, OneBlock extent ∧
          extent.1 + extent.2.length ≤ (run writeStep calls fs).iSize) ∧
      (∀ position, position < fs.iSize → (run writeStep calls fs).byte position = fs.byte position) ∧
      (∀ index, index < DEFAULT_INO_SIZE → (run writeStep calls fs).blocks index = fs.blocks index) ∧
      ∀ call before after err, onefilefsWriteAsync call before = (.error err, after) → after = before := by
  obtain ⟨extents, hrecords, hlaid, hone, hbytes, hblocks⟩ := run_appends calls fs hfits hreaches
  refine ⟨⟨extents, hrecords, hlaid, fun extent hmem => ⟨hone extent hmem, (hlaid.mem hmem).2.1⟩⟩,
    hbytes, hblocks, fun _ _ _ _ h => onefilefsWriteAsync_error h⟩

section HugeFile

/-- A log file of `2 ^ 44 - 8192` bytes on a device of zeros. -/
def hugeLog : Refmonfs := ⟨fun _ _ => 0, (2 ^ 32 - 2) * DEFAULT_BLOCK_SIZE, 0⟩

/-- One byte is written, and every block can be read. -/
def oneByteWrite : WriteCall := ⟨[1], fun _ _ => true, 0⟩

/-- The index of the block to write is `2 ^ 32`, which is `0` as an `int`: the write succeeds
and its byte lands in block `0` of the device, and not at the end of the file. -/
theorem huge_log_overwrites_block_zero :
    (onefilefsWriteAsync oneByteWrite hugeLog).1 = .ok 0 ∧
      hugeLog.blocks 0 0 = 0 ∧ (writeStep oneByteWrite hugeLog).blocks 0 0 = 1 ∧
      (writeStep oneByteWrite hugeLog).iSize = hugeLog.iSize + 1 ∧
      (writeStep oneByteWrite hugeLog).byte hugeLog.iSize = 0 := by
  decide +kernel

/-- The theorem on a record that does not fit the spare space of the first block. -/
theorem log_records_intact_crossing :
    ∃ extents, extents.map Prod.snd = [List.replicate 100 1] ∧
      Laid (writeStep ⟨List.replicate 100 1, fun _ _ => true, 0⟩ ⟨fun _ _ => 0, 4000, 0⟩).byte 4000
        extents 4196 := by
  have hintact := log_records_intact [⟨List.replicate 100 1, fun _ _ => true, 0⟩]
    ⟨fun _ _ => 0, 4000, 0⟩ (by simp [WriteCall.FitsBlock, DEFAULT_BLOCK_SIZE])
    ⟨Or.inl (by decide), trivial⟩
  obtain ⟨extents, hrecords, hlaid, -⟩ := hintact.1
  exact ⟨extents, hrecords, hlaid⟩

end HugeFile

end Refmon
