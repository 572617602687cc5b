import Refmon.LogRecords

/-!
# What a write to the log does and what it returns

`onefilefs_write_async` copies the first segment of the request, whatever its length, behind the end
of the file or, if that leaves no byte of the block spare, to the start of the next block. What it
returns is the value of `out_size`, to which nothing is assigned.
-/

namespace Refmon

open Extents

/-- A record of up to a block behind a file whose size is a `loff_t` ends at a 64-bit position. -/
theorem record_end_lt {iSize length : ℕ} (hsize : iSize < 2 ^ 63) (hlength : length ≤ DEFAULT_BLOCK_SIZE) :
    recordOffset iSize length + length < 2 ^ 64 := by
  unfold recordOffset DEFAULT_BLOCK_SIZE at *
  split <;> omega

/-- An index that is not an `int` is not its own sector number. -/
theorem sector_toInt_ne {index : ℕ} (h : 2 ^ 31 ≤ index) (hlt : index < 2 ^ 63) :
    sector (toInt index) ≠ index := by
  unfold sector toInt
  have hlow := Int.le_bmod (x := (index : ℤ)) (m := 2 ^ 32) (by decide)
  have hhigh := Int.bmod_lt (x := (index : ℤ)) (m := 2 ^ 32) (by decide)
  omega

/-- A file of zeros. -/
def zeroLog (iSize fPos : ℕ) : Refmonfs := ⟨fun _ _ => 0, iSize, fPos⟩

/-- A segment of ones is found in a file of zeros only if the index of its block is an `int`. -/
theorem index_of_held {iSize fPos length : ℕ} (hsize : iSize < 2 ^ 63) (hpos : 1 ≤ length)
    (h : Holds ((zeroLog iSize fPos).recorded (List.replicate length 1)).byte (recordOffset iSize length)
      (List.replicate length 1)) : recordBlock iSize length < 2 ^ 31 := by
  by_contra hlarge
  have hoffset : recordOffset iSize length ≤ iSize + DEFAULT_BLOCK_SIZE := by
    unfold recordOffset
    split <;> omega
  have hne : recordBlock iSize length ≠ sector (toInt (recordBlock iSize length)) := by
    apply (sector_toInt_ne (Nat.not_lt.mp hlarge) ?_).symm
    unfold recordBlock DEFAULT_BLOCK_SIZE DEFAULT_INO_SIZE at *
    omega
  have hfirst := h 0 (by rw [List.length_replicate]; exact hpos)
  rw [List.getElem_replicate, Refmonfs.byte, recorded_blocks, memcpy_blocks, List.length_replicate,
    if_neg fun hin => hne hin.1] at hfirst
  cases hfirst

/-- A segment that leaves a byte of the current block spare goes to the end of the file. -/
theorem record_of_lt {iSize length : ℕ} (h : iSize % DEFAULT_BLOCK_SIZE + length < DEFAULT_BLOCK_SIZE) :
    recordOffset iSize length = iSize ∧ recordBlock iSize length = currentBlock iSize := by
  have hoffset : recordOffset iSize length = iSize := if_neg (by omega)
  rw [recordBlock, hoffset, currentBlock]
  exact ⟨rfl, rfl⟩

/-- The start of the block after the one in which a file of this size ends. -/
def nextBlockStart (iSize : ℕ) : ℕ := iSize + (DEFAULT_BLOCK_SIZE - iSize % DEFAULT_BLOCK_SIZE)

/-- Any other segment goes to the start of the next block. -/
theorem record_of_ge {iSize length : ℕ} (h : DEFAULT_BLOCK_SIZE ≤ iSize % DEFAULT_BLOCK_SIZE + length) :
    recordOffset iSize length = nextBlockStart iSize ∧
      recordBlock iSize length = currentBlock iSize + 1 := by
  have hoffset : recordOffset iSize length = nextBlockStart iSize := if_pos (by omega)
  rw [recordBlock, hoffset, nextBlockStart, (nextBlock_eq iSize).2, currentBlock]
  exact ⟨rfl, by omega⟩

/-- The call succeeds and appends its segment at the offset. -/
def AppendsAt (call : WriteCall) (fs : Refmonfs) (offset : ℕ) : Prop :=
  ∃ after, onefilefsWriteAsync call fs = (.ok call.outSize, after) ∧ Appended fs after offset call.kvec

/-- What the call does depends on no other block being readable. -/
def AsksOnly (call : WriteCall) (fs : Refmonfs) (index : ℕ) : Prop :=
  ∀ sbBread : Fin 2 → ℕ → Bool, (∀ i, sbBread i index = call.sbBread i index) →
    onefilefsWriteAsync { call with sbBread := sbBread } fs = onefilefsWriteAsync call fs

/-- A device of so many blocks. -/
def deviceOf (blocks : ℕ) : Fin 2 → ℕ → Bool := fun _ index => index < blocks

/-- The current block exists, and the record fits in the free rest of it. -/
def FitsRest (blocks iSize length : ℕ) : Prop :=
  currentBlock iSize < blocks ∧ iSize % DEFAULT_BLOCK_SIZE + length ≤ DEFAULT_BLOCK_SIZE

/-- Records of this length are appended to files of this size on a device of so many blocks: at the
end of the file and without another block if they fit in the free rest of the current one, else at
the start of the next one if there is one. -/
def NotRefused (blocks iSize length : ℕ) : Prop :=
  ∀ (fs : Refmonfs) (record : List UInt8) (outSize : ℤ), fs.iSize = iSize → record.length = length →
    (FitsRest blocks iSize length →
      AppendsAt ⟨record, deviceOf blocks, outSize⟩ fs iSize ∧
        AsksOnly ⟨record, deviceOf blocks, outSize⟩ fs (currentBlock iSize)) ∧
    (¬ FitsRest blocks iSize length → currentBlock iSize + 1 < blocks →
      AppendsAt ⟨record, deviceOf blocks, outSize⟩ fs (nextBlockStart iSize))

/-- The block that a record of this length belongs to. -/
def ownBlock (iSize length : ℕ) : ℕ :=
  if iSize % DEFAULT_BLOCK_SIZE + length ≤ DEFAULT_BLOCK_SIZE then currentBlock iSize
  else currentBlock iSize + 1

/-- A call that appends at an offset can read its blocks, and records its segment. -/
theorem AppendsAt.recorded {call : WriteCall} {fs : Refmonfs} {offset : ℕ} (hsize : fs.iSize < 2 ^ 63)
    (hlength : call.kvec.length ≤ DEFAULT_BLOCK_SIZE) (h : AppendsAt call fs offset) :
    ¬ Unreadable call.sbBread fs.iSize call.kvec.length ∧
      offset = recordOffset fs.iSize call.kvec.length ∧
      Appended fs (fs.recorded call.kvec) offset call.kvec := by
  obtain ⟨after, hwrite, happended⟩ := h
  have hread : ¬ Unreadable call.sbBread fs.iSize call.kvec.length := by
    intro hunreadable
    rcases onefilefsWriteAsync_cases call fs with ⟨-, hfail, -⟩ | ⟨hread, -⟩
    · cases hfail.symm.trans hwrite
    · exact hread hunreadable
  rw [write_readable (record_end_lt hsize hlength) hread] at hwrite
  cases hwrite
  have hend : recordOffset fs.iSize call.kvec.length + call.kvec.length = offset + call.kvec.length :=
    happended.1
  exact ⟨hread, by omega, happended⟩

/-- A call that can read its blocks appends where the record goes, if that block has an index that
is an `int`. -/
theorem appendsAt_recordOffset {call : WriteCall} {fs : Refmonfs} (hsize : fs.iSize < 2 ^ 63)
    (hlength : call.kvec.length ≤ DEFAULT_BLOCK_SIZE)
    (hread : ¬ Unreadable call.sbBread fs.iSize call.kvec.length)
    (hindex : recordBlock fs.iSize call.kvec.length < 2 ^ 31) :
    AppendsAt call fs (recordOffset fs.iSize call.kvec.length) :=
  ⟨_, write_readable (record_end_lt hsize hlength) hread, recorded_appended fs hlength (Or.inr hindex)⟩

section

variable {blocks iSize length : ℕ}

/-- A device that has the block where the record goes, under an index that is an `int`, can read what
the call asks for. -/
theorem readable_of_lt (hindex : recordBlock iSize length < 2 ^ 31)
    (hblock : recordBlock iSize length < blocks) : ¬ Unreadable (deviceOf blocks) iSize length := by
  rintro (⟨hspare, hcurrent⟩ | hrecord)
  · have hnext : recordBlock iSize length = currentBlock iSize + 1 := (record_of_ge (by omega)).2
    rw [sector_toInt (by omega), deviceOf, decide_eq_false_iff_not] at hcurrent
    omega
  · rw [sector_toInt hindex, deviceOf, decide_eq_false_iff_not] at hrecord
    exact hrecord hblock

/-- A record that does not fill its block exactly goes to the block that it belongs to. -/
theorem ownBlock_eq (h : iSize % DEFAULT_BLOCK_SIZE + length ≠ DEFAULT_BLOCK_SIZE) :
    ownBlock iSize length = recordBlock iSize length := by
  unfold ownBlock
  split
  · exact (record_of_lt (by omega)).2.symm
  · exact (record_of_ge (by omega)).2.symm

/-- Records that do not fill their block exactly are appended where they belong, if that block has an
index that is an `int`. -/
theorem notRefused_of_ownBlock (hsize : iSize < 2 ^ 63) (hlength : length ≤ DEFAULT_BLOCK_SIZE)
    (h : ownBlock iSize length < blocks →
      ownBlock iSize length < 2 ^ 31 ∧ iSize % DEFAULT_BLOCK_SIZE + length ≠ DEFAULT_BLOCK_SIZE) :
    NotRefused blocks iSize length := by
  rintro fs record outSize rfl rfl
  have hown (hblock : ownBlock fs.iSize record.length < blocks) :
      ¬ Unreadable (deviceOf blocks) fs.iSize record.length ∧
        AppendsAt ⟨record, deviceOf blocks, outSize⟩ fs (recordOffset fs.iSize record.length) := by
    obtain ⟨hindex, hne⟩ := h hblock
    rw [ownBlock_eq hne] at hblock hindex
    have hread := readable_of_lt hindex hblock
    exact ⟨hread, appendsAt_recordOffset hsize hlength hread hindex⟩
  constructor
  · intro hfits
    have hcurrent : ownBlock fs.iSize record.length = currentBlock fs.iSize := if_pos hfits.2
    have hblock : ownBlock fs.iSize record.length < blocks := hcurrent ▸ hfits.1
    obtain ⟨hindex, hne⟩ := h hblock
    obtain ⟨hread, happends⟩ := hown hblock
    have hspare : fs.iSize % DEFAULT_BLOCK_SIZE + record.length < DEFAULT_BLOCK_SIZE :=
      Nat.lt_of_le_of_ne hfits.2 hne
    obtain ⟨hoffset, hrecord⟩ := record_of_lt hspare
    rw [hoffset] at happends
    refine ⟨happends, fun sbBread hsame => ?_⟩
    have hother : ¬ Unreadable sbBread fs.iSize record.length := by
      rintro (⟨hcrosses, -⟩ | hrecord')
      · omega
      · rw [hrecord, sector_toInt (hcurrent ▸ hindex), hsame] at hrecord'
        exact absurd hfits.1 (of_decide_eq_false hrecord')
    have hsmall := record_end_lt hsize hlength
    have hwrite := @write_readable ⟨record, deviceOf blocks, outSize⟩ fs hsmall hread
    exact (@write_readable ⟨record, sbBread, outSize⟩ fs hsmall hother).trans hwrite.symm
  · intro hcrosses hnext
    have hbeyond : ¬ fs.iSize % DEFAULT_BLOCK_SIZE + record.length ≤ DEFAULT_BLOCK_SIZE := fun hle =>
      hcrosses ⟨by omega, hle⟩
    have hblock : ownBlock fs.iSize record.length < blocks := by
      rw [ownBlock, if_neg hbeyond]
      exact hnext
    have happends := (hown hblock).2
    rwa [(record_of_ge (by omega)).1] at happends

/-- If records are appended where they belong, they do not fill their block exactly, and its index is
an `int`. -/
theorem ownBlock_of_notRefused (hsize : iSize < 2 ^ 63) (hpos : 1 ≤ length)
    (hlength : length ≤ DEFAULT_BLOCK_SIZE) (h : NotRefused blocks iSize length)
    (hblock : ownBlock iSize length < blocks) :
    ownBlock iSize length < 2 ^ 31 ∧ iSize % DEFAULT_BLOCK_SIZE + length ≠ DEFAULT_BLOCK_SIZE := by
  have hones : (List.replicate length (1 : UInt8)).length = length := List.length_replicate
  obtain ⟨hfits, hcrosses⟩ := h (zeroLog iSize 0) (List.replicate length 1) 0 rfl hones
  have happends : ∃ offset, AppendsAt ⟨List.replicate length 1, deviceOf blocks, 0⟩ (zeroLog iSize 0) offset ∧
      (iSize % DEFAULT_BLOCK_SIZE + length ≤ DEFAULT_BLOCK_SIZE → offset = iSize) := by
    unfold ownBlock at hblock
    split at hblock
    · rename_i hle
      exact ⟨iSize, (hfits ⟨hblock, hle⟩).1, fun _ => rfl⟩
    · rename_i hgt
      exact ⟨_, hcrosses (fun hle => hgt hle.2) hblock, fun hle => absurd hle hgt⟩
  obtain ⟨offset, happends, hplace⟩ := happends
  obtain ⟨-, hoffset, -, hheld, -⟩ := happends.recorded hsize (by rw [hones]; exact hlength)
  rw [hones] at hoffset
  rw [hoffset] at hheld
  have hindex := index_of_held hsize hpos hheld
  have hne : iSize % DEFAULT_BLOCK_SIZE + length ≠ DEFAULT_BLOCK_SIZE := by
    intro heq
    have hstays : nextBlockStart iSize = iSize := calc
      nextBlockStart iSize = recordOffset iSize length := (record_of_ge (Nat.le_of_eq heq.symm)).1.symm
      _ = offset := hoffset.symm
      _ = iSize := hplace (Nat.le_of_eq heq)
    unfold nextBlockStart at hstays
    omega
  rw [ownBlock_eq hne]
  exact ⟨hindex, hne⟩

/-- Records are appended where they belong exactly if they do not fill their block exactly and its
index is an `int`, or that block does not exist. -/
theorem records_not_refused_iff (hsize : iSize < 2 ^ 63) (hpos : 1 ≤ length)
    (hlength : length ≤ DEFAULT_BLOCK_SIZE) :
    NotRefused blocks iSize length ↔ (ownBlock iSize length < blocks →
      ownBlock iSize length < 2 ^ 31 ∧ iSize % DEFAULT_BLOCK_SIZE + length ≠ DEFAULT_BLOCK_SIZE) :=
  ⟨ownBlock_of_notRefused hsize hpos hlength, notRefused_of_ownBlock hsize hlength⟩

end

/-- The theorem on a record that leaves bytes spare in the last block of the device. -/
theorem records_not_refused_last_block : NotRefused 3 4000 50 :=
  (records_not_refused_iff (by decide) (by decide) (by decide)).mpr fun _ => by decide

/-- A record of six bytes fits the last six bytes of the only data block, and is refused: the code
asks for the next block, which the device does not have. -/
theorem exact_fit_refused :
    FitsRest 3 4090 6 ∧
      (onefilefsWriteAsync ⟨List.replicate 6 1, deviceOf 3, 0⟩ (zeroLog 4090 0)).1 = .error (- EIO) ∧
      ¬ NotRefused 3 4090 6 := by
  refine ⟨⟨by decide, by decide⟩, by decide +kernel, fun h => ?_⟩
  exact (ownBlock_of_notRefused (by decide) (by decide) (by decide) h (by decide)).2 (by decide)

/-- The request of a write: the segment that `iter->kvec` points to, and those behind it. -/
structure IovIter where
  kvec : List UInt8
  more : List (List UInt8)

/-- The bytes of the request. -/
def IovIter.bytes (iter : IovIter) : List UInt8 := iter.kvec ++ iter.more.flatten

/-- The lengths of the segments. -/
def IovIter.lengths (iter : IovIter) : ℕ × List ℕ := (iter.kvec.length, iter.more.map List.length)

/-- The call of `onefilefs_write_async` for a request, of which it looks at the first segment only. -/
def IovIter.write (iter : IovIter) (sbBread : Fin 2 → ℕ → Bool) (outSize : ℤ) : WriteCall :=
  ⟨iter.kvec, sbBread, outSize⟩

/-- The value that a call returns to the kernel. -/
def returnValue : Except ℤ ℤ → ℤ
  | .error err => err
  | .ok value => value

/-- The call returns a negative value and has changed nothing, or it returns how many of the first
bytes of the request it has appended where a record of that length goes. -/
def Reports (iter : IovIter) (fs : Refmonfs) (outcome : Except ℤ ℤ × Refmonfs) : Prop :=
  returnValue outcome.1 < 0 ∧ outcome.2 = fs ∨
    ∃ count : ℕ, returnValue outcome.1 = count ∧ count ≤ iter.bytes.length ∧
      Appended fs outcome.2 (recordOffset fs.iSize count) (iter.bytes.take count)

/-- The copy of the call, if it comes to it, ends in the block where it starts. -/
def StaysInBlock (call : WriteCall) (fs : Refmonfs) : Prop :=
  ∀ index offset, memcpyTarget call fs = some (index, offset) →
    offset + call.kvec.length ≤ DEFAULT_BLOCK_SIZE

/-- Requests with segments of these lengths report what they did, and write nothing outside a block,
whatever the bytes of the request and of the file. -/
def ReportsWhatItDid (sbBread : Fin 2 → ℕ → Bool) (outSize : ℤ) (iSize : ℕ) (lengths : ℕ × List ℕ) : Prop :=
  ∀ (iter : IovIter) (fs : Refmonfs), iter.lengths = lengths → fs.iSize = iSize →
    Reports iter fs (onefilefsWriteAsync (iter.write sbBread outSize) fs) ∧
      StaysInBlock (iter.write sbBread outSize) fs

/-- The copy of a segment of up to a block stays in its block, and that of a longer one does not. -/
theorem staysInBlock_iff (call : WriteCall) (fs : Refmonfs) :
    StaysInBlock call fs ↔
      Unreadable call.sbBread fs.iSize call.kvec.length ∨ call.kvec.length ≤ DEFAULT_BLOCK_SIZE := by
  unfold StaysInBlock
  rcases onefilefsWriteAsync_cases call fs with ⟨hread, -, htarget⟩ | ⟨hread, -, htarget⟩
  · rw [htarget]
    exact ⟨fun _ => Or.inl hread, fun _ _ _ h => by cases h⟩
  · rw [htarget]
    constructor
    · intro h
      have hin := h _ _ rfl
      exact Or.inr (by omega)
    · rintro (h | hlength) index offset heq
      · exact absurd h hread
      · rw [← (Prod.mk.inj (Option.some.inj heq)).2]
        exact recordOffset_block hlength

/-- No two lengths of a record let a file end at the same position. -/
theorem recordOffset_add_inj {iSize length length' : ℕ}
    (h : recordOffset iSize length + length = recordOffset iSize length' + length') : length = length' := by
  unfold recordOffset at h
  split at h <;> split at h <;> omega

/-- The first bytes of the request are its first segment. -/
theorem take_bytes (iter : IovIter) : iter.bytes.take iter.kvec.length = iter.kvec := by
  rw [IovIter.bytes, List.take_left]

section

variable {sbBread : Fin 2 → ℕ → Bool} {outSize : ℤ} {iSize : ℕ} {lengths : ℕ × List ℕ}

/-- A call that cannot read a block reports that, and one that returns the length of its segment
reports what it did, if the segment has at most a block, in which it is found again. -/
theorem reportsWhatItDid_of (hsize : iSize < 2 ^ 63)
    (h : Unreadable sbBread iSize lengths.1 ∨ outSize = lengths.1 ∧ lengths.1 ≤ DEFAULT_BLOCK_SIZE ∧
      (lengths.1 = 0 ∨ recordBlock iSize lengths.1 < 2 ^ 31)) :
    ReportsWhatItDid sbBread outSize iSize lengths := by
  rintro iter fs rfl rfl
  rw [staysInBlock_iff]
  rcases onefilefsWriteAsync_cases (iter.write sbBread outSize) fs with ⟨hread, hwrite, -⟩ | ⟨hread, -⟩
  · rw [hwrite]
    exact ⟨Or.inl ⟨(by decide : (- EIO : ℤ) < 0), rfl⟩, Or.inl hread⟩
  · obtain ⟨hvalue, hlength, hindex⟩ := h.resolve_left hread
    rw [@write_readable (iter.write sbBread outSize) fs (record_end_lt hsize hlength) hread]
    refine ⟨Or.inr ⟨iter.kvec.length, hvalue, ?_, ?_⟩, Or.inr hlength⟩
    · rw [IovIter.bytes, List.length_append]
      exact Nat.le_add_right _ _
    · rw [take_bytes]
      exact recorded_appended fs hlength hindex

/-- A request of ones with segments of these lengths. -/
def onesIter (lengths : ℕ × List ℕ) : IovIter :=
  ⟨List.replicate lengths.1 1, lengths.2.map fun length => List.replicate length 1⟩

theorem onesIter_lengths (lengths : ℕ × List ℕ) : (onesIter lengths).lengths = lengths := by
  simp [onesIter, IovIter.lengths, Function.comp_def]

/-- A call that can read its blocks and reports what it did returns the length of its segment, which
has at most a block, in which it is found again. -/
theorem of_reportsWhatItDid (hsize : iSize < 2 ^ 63)
    (h : ReportsWhatItDid sbBread outSize iSize lengths) (hread : ¬ Unreadable sbBread iSize lengths.1) :
    outSize = lengths.1 ∧ lengths.1 ≤ DEFAULT_BLOCK_SIZE ∧
      (lengths.1 = 0 ∨ recordBlock iSize lengths.1 < 2 ^ 31) := by
  have hones : ((onesIter lengths).write sbBread outSize).kvec.length = lengths.1 := List.length_replicate
  -- the position of the file is not the one that the call sets
  obtain ⟨hreports, hstays⟩ := h (onesIter lengths) (zeroLog iSize (recordOffset iSize lengths.1 + 1))
    (onesIter_lengths lengths) rfl
  rw [staysInBlock_iff, hones] at hstays
  have hlength := hstays.resolve_left hread
  have hsmall := record_end_lt hsize hlength
  rw [write_readable (by rw [hones]; exact hsmall) (by rw [hones]; exact hread)] at hreports
  rcases hreports with ⟨-, hsame⟩ | ⟨count, hvalue, hcount, hend, hheld, -⟩
  · have hposition : recordOffset iSize ((onesIter lengths).write sbBread outSize).kvec.length =
        recordOffset iSize lengths.1 + 1 := congrArg Refmonfs.fPos hsame
    rw [hones] at hposition
    omega
  · have hsame : recordOffset iSize ((onesIter lengths).write sbBread outSize).kvec.length +
        ((onesIter lengths).write sbBread outSize).kvec.length =
          recordOffset iSize count + ((onesIter lengths).bytes.take count).length := hend
    rw [hones, List.length_take, Nat.min_eq_left hcount] at hsame
    have heq := recordOffset_add_inj hsame
    rw [← heq] at hvalue hheld
    refine ⟨hvalue, hlength, ?_⟩
    rcases Nat.eq_zero_or_pos lengths.1 with hzero | hpos
    · exact Or.inl hzero
    · have hfirst := take_bytes (onesIter lengths)
      have hkvec : (onesIter lengths).kvec.length = lengths.1 := hones
      rw [hkvec] at hfirst
      rw [hfirst] at hheld
      exact Or.inr (index_of_held hsize hpos hheld)

end

/-- Whatever the bytes of the request and of the file, a write reports what it did and stays in its
block exactly if it cannot read a block that it asks for, or what lies in `out_size` happens to be the
length of the first segment, which is at most a block, and either zero or copied to a block whose
index is an `int`. -/
theorem writes_reported_iff {sbBread : Fin 2 → ℕ → Bool} {outSize : ℤ} {iSize : ℕ} {lengths : ℕ × List ℕ}
    (hsize : iSize < 2 ^ 63) :
    ReportsWhatItDid sbBread outSize iSize lengths ↔
      Unreadable sbBread iSize lengths.1 ∨ outSize = lengths.1 ∧ lengths.1 ≤ DEFAULT_BLOCK_SIZE ∧
        (lengths.1 = 0 ∨ recordBlock iSize lengths.1 < 2 ^ 31) := by
  constructor
  · intro h
    by_cases hread : Unreadable sbBread iSize lengths.1
    · exact Or.inl hread
    · exact Or.inr (of_reportsWhatItDid hsize h hread)
  · exact reportsWhatItDid_of hsize

/-- The theorem on a request of two segments, when the length of the first one lies in `out_size`. -/
theorem writes_reported_iff_lucky : ReportsWhatItDid (deviceOf 3) 10 0 (10, [20]) :=
  (writes_reported_iff (by decide)).mpr (Or.inr ⟨by decide, by decide, Or.inr (by decide)⟩)

/-- Ten bytes are appended to an empty file and zero is returned, for that is what lies in `out_size`.
Five thousand bytes are copied to a block of 4096. -/
theorem ten_bytes_misreported :
    returnValue (onefilefsWriteAsync (IovIter.write ⟨List.replicate 10 1, []⟩ (deviceOf 3) 0)
        (zeroLog 0 0)).1 = 0 ∧
      (onefilefsWriteAsync (IovIter.write ⟨List.replicate 10 1, []⟩ (deviceOf 3) 0) (zeroLog 0 0)).2.iSize = 10 ∧
      ¬ ReportsWhatItDid (deviceOf 3) 0 0 (10, []) ∧
      ¬ StaysInBlock (IovIter.write ⟨List.replicate 5000 1, []⟩ (deviceOf 4) 0) (zeroLog 0 0) := by
  refine ⟨by decide +kernel, by decide +kernel, fun h => ?_, fun h => ?_⟩
  · have hread : ¬ Unreadable (deviceOf 3) 0 (10, ([] : List ℕ)).1 := readable_of_lt (by decide) (by decide)
    exact absurd (of_reportsWhatItDid (by decide) h hread).1 (by decide)
  · have hread : ¬ Unreadable (deviceOf 4) 0 5000 := readable_of_lt (by decide) (by decide)
    have hlength : (IovIter.write ⟨List.replicate 5000 1, []⟩ (deviceOf 4) 0).kvec.length = 5000 :=
      List.length_replicate
    rw [staysInBlock_iff, hlength] at h
    exact absurd (h.resolve_left hread) (by decide)

end Refmon
