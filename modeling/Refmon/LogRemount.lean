import Refmon.LogRecords
import Refmon.RefmonfsMount
import Mathlib.Data.Fin.VecNotation

/-!
# What a remount keeps of the log

A write grows the size in the cached inode and leaves the inode on the device as the formatter
wrote it, and the next lookup reads the size from there. So the log survives a remount only if
nothing was appended to it.
-/

namespace Refmon

open Blocks Runs

/-- The log after a remount is the log before it: it has the same size, every read gives the
same bytes, and no write of up to a block changes a byte that was in the file. -/
structure SurvivesRemount (before after : Refmonfs) : Prop where
  iSize : after.iSize = before.iSize
  read : ∀ call : ReadCall, onefilefsRead call after = onefilefsRead call before
  write : ∀ call : WriteCall, call.kvec.length ≤ DEFAULT_BLOCK_SIZE →
    ∀ position, position < before.iSize → (writeStep call after).byte position = before.byte position

/-- A field of the inode's block depends on that block. -/
theorem u64_congr {dev dev' : Device} (h : dev' SINGLEFILEFS_INODES_BLOCK_NUMBER =
      dev SINGLEFILEFS_INODES_BLOCK_NUMBER) :
    dev'.u64 SINGLEFILEFS_INODES_BLOCK_NUMBER offsetFileSize =
      dev.u64 SINGLEFILEFS_INODES_BLOCK_NUMBER offsetFileSize := by
  unfold Device.u64
  congr 1
  apply List.map_congr_left
  intro i hi
  have hlt := List.mem_range.mp hi
  have hblock : (SINGLEFILEFS_INODES_BLOCK_NUMBER * DEFAULT_BLOCK_SIZE + offsetFileSize + i) /
      DEFAULT_BLOCK_SIZE = SINGLEFILEFS_INODES_BLOCK_NUMBER := by
    unfold SINGLEFILEFS_INODES_BLOCK_NUMBER offsetFileSize DEFAULT_BLOCK_SIZE
    omega
  unfold byteAt
  rw [hblock, h]

/-- A mounted log has the blocks of the device and the size in the inode on the device. -/
theorem mountLog_some {call : MountCall} {dev : Device} {fs : Refmonfs} (h : mountLog call dev = some fs) :
    fs = ⟨dev, dev.u64 SINGLEFILEFS_INODES_BLOCK_NUMBER offsetFileSize, 0⟩ := by
  unfold mountLog at h
  split at h
  · unfold onefilefsLookup at h
    rw [if_pos rfl] at h
    split at h
    · rename_i hlookup
      split at hlookup
      · cases (Prod.mk.inj hlookup).1
      · dsimp only at hlookup
        split at hlookup
        · cases (Prod.mk.inj hlookup).1
        · rw [← Option.some.inj h, Option.some.inj (Prod.mk.inj hlookup).2]
    · cases h
  · cases h

/-- A log that was mounted and not written to is mounted again as it is. -/
theorem remountLog_of_mountLog {call : MountCall} {dev : Device} {fs : Refmonfs}
    (h : mountLog call dev = some fs) : remountLog call fs = some fs := by
  have hfs := mountLog_some h
  rw [hfs] at h ⊢
  exact h

/-- Everything the kernel is asked for during a mount is there. -/
def nothingMissing : MountCall := ⟨fun _ => true, fun _ => true, true⟩

/-- A device with the magic number mounts when nothing is missing. -/
theorem mountLog_of_magic {dev : Device} (h : dev.u64 SB_BLOCK_NUMBER offsetMagic = MAGIC) :
    mountLog nothingMissing dev =
      some ⟨dev, dev.u64 SINGLEFILEFS_INODES_BLOCK_NUMBER offsetFileSize, 0⟩ := by
  simp [mountLog, singlefilefsFillSuper, onefilefsLookup, nothingMissing, h]

/-- Writing an empty segment changes neither the blocks nor the size. -/
theorem write_empty {call : WriteCall} (fs : Refmonfs) (h : call.kvec = []) :
    (writeStep call fs).blocks = fs.blocks ∧ (writeStep call fs).iSize = fs.iSize := by
  unfold writeStep
  rcases onefilefsWriteAsync_cases call fs with ⟨-, hfail, -⟩ | ⟨hread, hwrite, -⟩
  · rw [hfail]
    exact ⟨rfl, rfl⟩
  rw [hwrite, writeBlock, if_neg fun hunreadable => hread (Or.inr hunreadable)]
  have hspare : ¬ DEFAULT_BLOCK_SIZE - fs.iSize % DEFAULT_BLOCK_SIZE ≤ call.kvec.length := by
    rw [h, List.length_nil]
    unfold DEFAULT_BLOCK_SIZE
    omega
  have hsmall : ¬ toU64 (fs.iSize + call.kvec.length) > fs.iSize := by
    rw [h, List.length_nil, Nat.add_zero, gt_iff_lt, not_lt]
    exact Nat.mod_le _ _
  rw [if_neg hspare]
  dsimp only
  rw [if_neg hsmall]
  refine ⟨?_, rfl⟩
  funext index i
  refine (memcpy_blocks fs _ _ call.kvec index i).trans (if_neg ?_)
  rw [h, List.length_nil]
  omega

/-- The call appends its segment. -/
def WriteCall.Succeeds (call : WriteCall) (fs : Refmonfs) : Prop :=
  ∃ written, (onefilefsWriteAsync call fs).1 = .ok written

/-- A write that does not succeed changes nothing. -/
theorem writeStep_of_not_succeeds {call : WriteCall} {fs : Refmonfs} (h : ¬ call.Succeeds fs) :
    writeStep call fs = fs := by
  unfold WriteCall.Succeeds at h
  unfold writeStep
  cases hwrite : onefilefsWriteAsync call fs with
  | mk ret after =>
    cases ret with
    | error err => exact onefilefsWriteAsync_error hwrite
    | ok written =>
      rw [hwrite] at h
      exact absurd ⟨written, rfl⟩ h

/-- The records of a run are that of its first call, if it succeeds, and those of the rest. -/
theorem mem_appendedRecords_cons {call : WriteCall} {rest : List WriteCall} {fs : Refmonfs}
    {record : List UInt8} :
    record ∈ appendedRecords (call :: rest) fs ↔
      record = call.kvec ∧ call.Succeeds fs ∨ record ∈ appendedRecords rest (writeStep call fs) := by
  rw [appendedRecords, writeStep, WriteCall.Succeeds]
  cases hwrite : onefilefsWriteAsync call fs with
  | mk ret after => cases ret <;> simp

/-- Nothing happens to the log while only empty segments are written. -/
theorem run_empty (calls : List WriteCall) (fs : Refmonfs)
    (h : ∀ record ∈ appendedRecords calls fs, record = []) :
    (run writeStep calls fs).blocks = fs.blocks ∧ (run writeStep calls fs).iSize = fs.iSize := by
  induction calls generalizing fs with
  | nil => exact ⟨rfl, rfl⟩
  | cons call rest ih =>
    have hstep : (writeStep call fs).blocks = fs.blocks ∧ (writeStep call fs).iSize = fs.iSize := by
      by_cases hok : call.Succeeds fs
      · exact write_empty fs (h call.kvec (mem_appendedRecords_cons.mpr (Or.inl ⟨rfl, hok⟩)))
      · rw [writeStep_of_not_succeeds hok]
        exact ⟨rfl, rfl⟩
    obtain ⟨hblocks, hsize⟩ := ih (writeStep call fs) fun record hrecord =>
      h record (mem_appendedRecords_cons.mpr (Or.inr hrecord))
    exact ⟨hblocks.trans hstep.1, hsize.trans hstep.2⟩

/-- A write of up to a block leaves the inode's block alone, never shortens the file, and
lengthens it when it appends something. -/
theorem write_grows (call : WriteCall) (fs : Refmonfs) (hlength : call.kvec.length ≤ DEFAULT_BLOCK_SIZE)
    (hreaches : call.ReachesBlock fs) :
    (writeStep call fs).blocks SINGLEFILEFS_INODES_BLOCK_NUMBER =
        fs.blocks SINGLEFILEFS_INODES_BLOCK_NUMBER ∧
      fs.iSize ≤ (writeStep call fs).iSize ∧
      (call.Succeeds fs → call.kvec ≠ [] → fs.iSize < (writeStep call fs).iSize) := by
  by_cases hempty : call.kvec = []
  · obtain ⟨hblocks, hsize⟩ := write_empty fs hempty
    exact ⟨by rw [hblocks], hsize.ge, fun _ hne => absurd hempty hne⟩
  have hpos := List.length_pos_iff.mpr hempty
  rcases write_step call fs ⟨hpos, hlength⟩ hreaches with hfail | ⟨after, hwrite, hsize, -, -, hlow⟩
  · have hfailed : ¬ call.Succeeds fs := by
      intro ⟨written, hok⟩
      rw [hfail] at hok
      cases hok
    rw [writeStep_of_not_succeeds hfailed]
    exact ⟨rfl, le_rfl, fun hok => absurd hok hfailed⟩
  · have hstep : writeStep call fs = after := by rw [writeStep, hwrite]
    have hle := le_recordOffset fs.iSize call.kvec.length
    rw [hstep]
    exact ⟨hlow _ (by decide), by omega, fun _ _ => by omega⟩

/-- A run of writes leaves the inode's block alone, and the file keeps its size only if nothing
was appended. -/
theorem run_grows (calls : List WriteCall) (fs : Refmonfs)
    (hlength : ∀ call ∈ calls, call.kvec.length ≤ DEFAULT_BLOCK_SIZE)
    (hreaches : EveryStep writeStep WriteCall.ReachesBlock calls fs) :
    (run writeStep calls fs).blocks SINGLEFILEFS_INODES_BLOCK_NUMBER =
        fs.blocks SINGLEFILEFS_INODES_BLOCK_NUMBER ∧
      fs.iSize ≤ (run writeStep calls fs).iSize ∧
      ((run writeStep calls fs).iSize = fs.iSize → ∀ record ∈ appendedRecords calls fs, record = []) := by
  induction calls generalizing fs with
  | nil => exact ⟨rfl, le_rfl, fun _ record hrecord => (List.not_mem_nil hrecord).elim⟩
  | cons call rest ih =>
    obtain ⟨hblocks, hsize, hgrows⟩ := write_grows call fs (hlength call List.mem_cons_self) hreaches.1
    obtain ⟨hblocks', hsize', hrest⟩ :=
      ih (writeStep call fs) (fun c hc => hlength c (List.mem_cons_of_mem _ hc)) hreaches.2
    rw [run_cons]
    refine ⟨hblocks'.trans hblocks, hsize.trans hsize', fun heq record hrecord => ?_⟩
    rcases mem_appendedRecords_cons.mp hrecord with ⟨hhead, hok⟩ | htail
    · by_contra hne
      have hlt := hgrows hok (by rwa [← hhead])
      omega
    · exact hrest (by omega) record htail

/-- A mount of a log that ends in the first block behind the inode reads and writes what was
there. -/
theorem survives_of_eq {before after : Refmonfs} (hblocks : after.blocks = before.blocks)
    (hsize : after.iSize = before.iSize) (hsmall : before.iSize < DEFAULT_BLOCK_SIZE) :
    SurvivesRemount before after := by
  refine ⟨hsize, fun call => ?_, fun call hlength position hposition => ?_⟩
  · unfold onefilefsRead
    rw [hblocks, hsize]
  · have hbyte : after.byte position = before.byte position := by
      unfold Refmonfs.byte
      rw [hblocks]
    rw [← hbyte]
    by_cases hempty : call.kvec = []
    · unfold Refmonfs.byte
      rw [(write_empty after hempty).1]
    have hindex : recordBlock after.iSize call.kvec.length < 2 ^ 31 := by
      unfold recordBlock recordOffset DEFAULT_BLOCK_SIZE DEFAULT_INO_SIZE at *
      split <;> omega
    have hpos := List.length_pos_iff.mpr hempty
    rcases write_step call after ⟨hpos, hlength⟩ (Or.inl hindex) with hfail | ⟨_, hwrite, -, -, hold, -⟩
    · rw [writeStep, hfail]
    · rw [writeStep, hwrite]
      exact hold position (by omega)

/-- A log that was formatted, mounted and written to survives a remount if every segment that was
written with success is empty; and only then, as long as no write goes beyond its block or to a
block whose index is not an `int`. -/
theorem log_survives_remount_iff {dev : Device} (hformatted : Formatted dev) {first second : MountCall}
    {fs after : Refmonfs} (hmount : mountLog first dev = some fs) (calls : List WriteCall)
    (hremount : remountLog second (run writeStep calls fs) = some after) :
    ((∀ record ∈ appendedRecords calls fs, record = []) →
        SurvivesRemount (run writeStep calls fs) after) ∧
      ((∀ call ∈ calls, call.kvec.length ≤ DEFAULT_BLOCK_SIZE) →
        EveryStep writeStep WriteCall.ReachesBlock calls fs →
          SurvivesRemount (run writeStep calls fs) after →
            ∀ record ∈ appendedRecords calls fs, record = []) := by
  have hfs := mountLog_some hmount
  have hafter := mountLog_some hremount
  have hsize : fs.iSize = fileBody.length := by
    rw [hfs]
    exact hformatted.fields.2
  have hdisk : Device.u64 fs.blocks SINGLEFILEFS_INODES_BLOCK_NUMBER offsetFileSize = fs.iSize := by
    rw [hfs]
  constructor
  · intro hempty
    obtain ⟨hblocks, hstays⟩ := run_empty calls fs hempty
    apply survives_of_eq
    · rw [hafter]
    · rw [hafter, hstays, hblocks, hdisk]
    · rw [hstays, hsize]
      decide
  · intro hlength hreaches hsurvives
    obtain ⟨hblocks, -, hgrows⟩ := run_grows calls fs hlength hreaches
    apply hgrows
    rw [← hsurvives.iSize, hafter, u64_congr hblocks, hdisk]

section OneByte

/-- A run of the formatter in which every write stores all its bytes. -/
def formatAll : MakefsRun := ⟨2, true, ![4096, 32, 4064, 31], fun _ => 0⟩

/-- A device of zeros after `singlefilemakefs`. -/
def formattedZeros : Device := (singlefilemakefs formatAll fun _ _ => 0).2

/-- The log of that device after its first mount. -/
def emptyLog : Refmonfs := ⟨formattedZeros, 31, 0⟩

/-- The log after a byte was written to it and the device was mounted again. -/
def remountedLog : Refmonfs := ⟨(writeStep oneByteWrite emptyLog).blocks, 31, 0⟩

theorem formattedZeros_formatted : Formatted formattedZeros := by
  have hstatus : (singlefilemakefs formatAll fun _ _ => 0).1 = 0 := by decide +kernel
  refine ⟨formatAll, fun _ _ => 0, by decide +kernel, ?_⟩
  rw [← hstatus, formattedZeros]

theorem mountLog_formattedZeros : mountLog nothingMissing formattedZeros = some emptyLog := by
  rw [mountLog_of_magic formattedZeros_formatted.fields.1, formattedZeros_formatted.fields.2]
  rfl

/-- A byte is written, and the device is mounted again. -/
theorem remountLog_oneByte :
    remountLog nothingMissing (writeStep oneByteWrite emptyLog) = some remountedLog := by
  have hsize : Device.u64 (writeStep oneByteWrite emptyLog).blocks SINGLEFILEFS_INODES_BLOCK_NUMBER
      offsetFileSize = 31 := by
    decide +kernel
  rw [remountLog, mountLog_of_magic (by decide +kernel), hsize, remountedLog]

/-- After a byte is written and the device is mounted again, the file has the size it was
formatted with: the byte cannot be read, and the next write puts another one in its place. -/
theorem logged_byte_lost :
    Formatted formattedZeros ∧ mountLog nothingMissing formattedZeros = some emptyLog ∧
      oneByteWrite.Succeeds emptyLog ∧
      remountLog nothingMissing (writeStep oneByteWrite emptyLog) = some remountedLog ∧
      ¬ SurvivesRemount (writeStep oneByteWrite emptyLog) remountedLog ∧
      (writeStep oneByteWrite emptyLog).byte 31 = 1 ∧
      (writeStep ⟨[2], fun _ _ => true, 0⟩ remountedLog).byte 31 = 2 := by
  refine ⟨formattedZeros_formatted, mountLog_formattedZeros, ⟨0, by decide +kernel⟩,
    remountLog_oneByte, ?_, by decide +kernel, by decide +kernel⟩
  intro h
  exact absurd h.iSize (by decide +kernel)

/-- The theorem for a log that nothing was written to, and for one that a byte was written to. -/
theorem log_survives_remount_iff_zeros :
    SurvivesRemount emptyLog emptyLog ∧
      ¬ SurvivesRemount (writeStep oneByteWrite emptyLog) remountedLog := by
  constructor
  · exact (log_survives_remount_iff formattedZeros_formatted mountLog_formattedZeros []
      (remountLog_of_mountLog mountLog_formattedZeros)).1 fun _ h => (List.not_mem_nil h).elim
  · intro h
    have hempty := (log_survives_remount_iff formattedZeros_formatted mountLog_formattedZeros [oneByteWrite]
      remountLog_oneByte).2 (fun call hcall => by rw [List.mem_singleton.mp hcall]; decide)
      ⟨Or.inl (by decide +kernel), trivial⟩ h
    have hsucceeds : oneByteWrite.Succeeds emptyLog := ⟨0, by decide +kernel⟩
    have hmem : oneByteWrite.kvec ∈ appendedRecords [oneByteWrite] emptyLog :=
      mem_appendedRecords_cons.mpr (Or.inl ⟨rfl, hsucceeds⟩)
    exact absurd (hempty _ hmem) (by decide)

end OneByte

end Refmon
