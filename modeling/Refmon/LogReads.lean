import Refmon.Library.ReadLoop
import Refmon.LogRecords
import Refmon.RefmonfsMount

/-!
# Reading the log back

A reader of the log file calls `onefilefs_read` until it returns zero. A call stays in one block and
in the file, so it takes several calls to read a file of more than a block. They give the whole file
as long as the index of its last block is an `int`; on a larger file they end with an error at the
first block whose index is not.
-/

namespace Refmon

open ReadLoop

/-- `INT_MAX & PAGE_MASK`, the most that one `read` asks for. -/
def MAX_RW_COUNT : ℕ := 0x7ffff000

/-- What the file holds: its first `i_size` bytes from the first data block on. -/
def Refmonfs.content (fs : Refmonfs) : List UInt8 := (List.range fs.iSize).map fs.byte

/-- A call of `onefilefs_read` whose `copy_to_user` leaves nothing out. -/
def readLog (fs : Refmonfs) (sbBread : ℕ → Bool) (count off : ℕ) : Except ℤ (List UInt8 × ℕ) :=
  onefilefsRead ⟨count, off, sbBread, 0⟩ fs

/-- A count that a `read` can have. -/
def Admitted (count : ℕ) : Prop := 1 ≤ count ∧ count ≤ MAX_RW_COUNT

/-- The size of the data whose blocks have an index that is an `int`. -/
def readableSize : ℕ := (2 ^ 31 - DEFAULT_INO_SIZE) * DEFAULT_BLOCK_SIZE

/-- How much a call reads: what is asked for, up to the end of the file and of the block. -/
def readLength (iSize count off : ℕ) : ℕ :=
  min (min count (iSize - off)) (DEFAULT_BLOCK_SIZE - off % DEFAULT_BLOCK_SIZE)

/-- The bytes of a block from an offset on are those of the file, as far as the file and the block
go. -/
theorem block_bytes (fs : Refmonfs) (off length : ℕ) (hfile : off + length ≤ fs.iSize)
    (hblock : off % DEFAULT_BLOCK_SIZE + length ≤ DEFAULT_BLOCK_SIZE) :
    ((List.ofFn (fs.blocks (off / DEFAULT_BLOCK_SIZE + DEFAULT_INO_SIZE))).drop
      (off % DEFAULT_BLOCK_SIZE)).take length = (fs.content.drop off).take length := by
  apply List.ext_getElem
  · simp only [Refmonfs.content, List.length_take, List.length_drop, List.length_ofFn, List.length_map,
      List.length_range]
    omega
  · intro i hi _
    rw [List.length_take] at hi
    have hlt : i < length := Nat.lt_of_lt_of_le hi (Nat.min_le_left _ _)
    simp only [Refmonfs.content, List.getElem_take, List.getElem_drop, List.getElem_ofFn,
      List.getElem_map, List.getElem_range, Refmonfs.byte]
    unfold DEFAULT_BLOCK_SIZE at hblock ⊢
    have hindex : (off + i) / 4096 = off / 4096 := by omega
    have hoffset : (off + i) % 4096 = off % 4096 + i := by omega
    simp only [hindex, hoffset]

section

variable {fs : Refmonfs} {sbBread : ℕ → Bool} {count off : ℕ}

/-- A call before the end of the file reads a part of one block, if `sb_bread` gives it. -/
theorem readLog_before_end (sbBread : ℕ → Bool) (hsize : fs.iSize < 2 ^ 63) (hcount : Admitted count)
    (hoff : off < fs.iSize) :
    readLog fs sbBread count off =
      if sbBread (sector (toInt (off / DEFAULT_BLOCK_SIZE + DEFAULT_INO_SIZE : ℕ))) = false then
        .error (- EIO)
      else .ok (((List.ofFn (fs.blocks (sector (toInt
        (off / DEFAULT_BLOCK_SIZE + DEFAULT_INO_SIZE : ℕ))))).drop (off % DEFAULT_BLOCK_SIZE)).take
          (readLength fs.iSize count off), off + readLength fs.iSize count off) := by
  unfold Admitted MAX_RW_COUNT at hcount
  have hend : toU64 (off + count) = off + count := Nat.mod_eq_of_lt (by omega)
  have hclip : (if off + count > fs.iSize then fs.iSize - off else count) = min count (fs.iSize - off) := by
    split <;> omega
  have hblock : toU64 (off % DEFAULT_BLOCK_SIZE + min count (fs.iSize - off)) =
      off % DEFAULT_BLOCK_SIZE + min count (fs.iSize - off) := by
    apply Nat.mod_eq_of_lt
    unfold DEFAULT_BLOCK_SIZE
    omega
  have hlength : (if off % DEFAULT_BLOCK_SIZE + min count (fs.iSize - off) > DEFAULT_BLOCK_SIZE then
      DEFAULT_BLOCK_SIZE - off % DEFAULT_BLOCK_SIZE else min count (fs.iSize - off)) =
        readLength fs.iSize count off := by
    unfold readLength DEFAULT_BLOCK_SIZE
    split <;> omega
  rw [readLog, onefilefsRead, if_neg (by exact Nat.not_le.mpr hoff)]
  dsimp only
  rw [hend, hclip, hblock, hlength, Nat.sub_zero]

/-- A call before the end of the file reads something: no more than asked for, and nothing behind
the file or the block. -/
theorem readLength_bounds (hcount : Admitted count) (hoff : off < fs.iSize) :
    1 ≤ readLength fs.iSize count off ∧ readLength fs.iSize count off ≤ count ∧
      off + readLength fs.iSize count off ≤ fs.iSize ∧
      off % DEFAULT_BLOCK_SIZE + readLength fs.iSize count off ≤ DEFAULT_BLOCK_SIZE := by
  have hpos := hcount.1
  unfold readLength DEFAULT_BLOCK_SIZE
  omega

/-- A call at or behind the end of the file returns zero. -/
theorem readLog_at_end (hoff : fs.iSize ≤ off) : readLog fs sbBread count off = .ok ([], off) := by
  rw [readLog, onefilefsRead, if_pos (by exact hoff)]

/-- While the index of its block is an `int`, a position below the end of the file is read from that
block. -/
theorem index_lt (hoff : off < readableSize) : off / DEFAULT_BLOCK_SIZE + DEFAULT_INO_SIZE < 2 ^ 31 := by
  unfold readableSize DEFAULT_BLOCK_SIZE DEFAULT_INO_SIZE at *
  omega

/-- The first index that is not an `int` gives a sector behind every device. -/
theorem sector_readableSize :
    2 ^ 63 ≤ sector (toInt (readableSize / DEFAULT_BLOCK_SIZE + DEFAULT_INO_SIZE : ℕ)) := by
  decide +kernel

/-- On a file whose blocks all have an index that is an `int` and can be read, the calls serve what
the file holds. -/
theorem readLog_serves (hsize : fs.iSize < 2 ^ 63)
    (hdata : ∀ position, position < fs.iSize →
      sbBread (position / DEFAULT_BLOCK_SIZE + DEFAULT_INO_SIZE) = true)
    (hreadable : fs.iSize ≤ readableSize) : Serves (readLog fs sbBread) Admitted fs.content id := by
  intro count off hcount
  rcases Nat.lt_or_ge off fs.iSize with hoff | hoff
  · obtain ⟨hpos, hle, hfile, hblock⟩ := readLength_bounds hcount hoff
    have hindex := sector_toInt (index_lt (Nat.lt_of_lt_of_le hoff hreadable))
    have hread := readLog_before_end sbBread hsize hcount hoff
    rw [hindex, hdata off hoff, if_neg (by decide), block_bytes fs off _ hfile hblock] at hread
    have hlength : ((fs.content.drop off).take (readLength fs.iSize count off)).length =
        readLength fs.iSize count off := by
      simp only [Refmonfs.content, List.length_take, List.length_drop, List.length_map, List.length_range]
      omega
    refine ⟨_, _, hread, ?_, ?_, ?_, ?_⟩
    · rw [hlength]
      rfl
    · rw [hlength]
      exact hle
    · intro _ hnil
      rw [hnil] at hlength
      simp only [List.length_nil] at hlength
      omega
    · rw [hlength]
      rfl
  · have hend : fs.content.length ≤ off := by
      rw [Refmonfs.content, List.length_map, List.length_range]
      exact hoff
    exact ⟨[], off, readLog_at_end hoff, by rw [List.length_nil, List.take_zero], Nat.zero_le _,
      fun hlt => absurd hlt (Nat.not_lt.mpr hend), rfl⟩

/-- On a larger file a call at a position up to the first block whose index is not an `int` ends with
an error, or reads something and nothing of that block. -/
theorem readLog_step (hsize : fs.iSize < 2 ^ 63)
    (hdevice : ∀ index, 2 ^ 63 ≤ index → sbBread index = false) (hlarge : readableSize < fs.iSize)
    (hcount : Admitted count) (hoff : off ≤ readableSize) :
    readLog fs sbBread count off = .error (- EIO) ∨
      ∃ chunk off', readLog fs sbBread count off = .ok (chunk, off') ∧ chunk ≠ [] ∧
        off' ≤ readableSize := by
  have hbefore : off < fs.iSize := by omega
  have hread := readLog_before_end sbBread hsize hcount hbefore
  split at hread
  · exact Or.inl hread
  rename_i hfound
  have hne : off ≠ readableSize := by
    intro heq
    rw [heq] at hfound
    exact hfound (hdevice _ sector_readableSize)
  obtain ⟨hpos, -, -, hblock⟩ := readLength_bounds hcount hbefore
  refine Or.inr ⟨_, _, hread, ?_, ?_⟩
  · intro hnil
    have hlength := congrArg List.length hnil
    simp only [List.length_take, List.length_drop, List.length_ofFn, List.length_nil] at hlength
    omega
  · -- the position where the readable data ends starts a block, so a call stops there
    unfold readableSize DEFAULT_BLOCK_SIZE DEFAULT_INO_SIZE at *
    omega

/-- On a larger file the calls never come to an end, but at a position behind the readable data. -/
theorem not_readsAll (hsize : fs.iSize < 2 ^ 63)
    (hdevice : ∀ index, 2 ^ 63 ≤ index → sbBread index = false) (hlarge : readableSize < fs.iSize)
    {counts : ℕ → ℕ} (hcounts : ∀ n, Admitted (counts n)) {n off : ℕ} {out : List UInt8}
    (h : ReadsAll (readLog fs sbBread) counts n off out) : readableSize < off := by
  by_contra hle
  induction h with
  | @done n off off' hread =>
    rcases readLog_step hsize hdevice hlarge (hcounts n) (Nat.not_lt.mp hle) with
      hfail | ⟨chunk, next, hok, hne, -⟩
    · cases hread.symm.trans hfail
    · cases hread.symm.trans hok
      exact hne rfl
  | @more n off off' chunk rest hread _ _ _ ih =>
    rcases readLog_step hsize hdevice hlarge (hcounts n) (Nat.not_lt.mp hle) with
      hfail | ⟨chunk', next, hok, -, hnext⟩
    · cases hread.symm.trans hfail
    · cases hread.symm.trans hok
      exact ih (Nat.not_lt.mpr hnext)

end

/-- Whatever the counts, the calls up to the first one that returns zero read what the file holds,
each of the others something and no more than was asked for, exactly if the index of the last data
block is an `int`. The blocks of the data can be read, and a sector that no device has cannot. -/
theorem log_reads_back_iff (fs : Refmonfs) (sbBread : ℕ → Bool) (counts : ℕ → ℕ)
    (hsize : fs.iSize < 2 ^ 63)
    (hdata : ∀ position, position < fs.iSize →
      sbBread (position / DEFAULT_BLOCK_SIZE + DEFAULT_INO_SIZE) = true)
    (hdevice : ∀ index, 2 ^ 63 ≤ index → sbBread index = false)
    (hcounts : ∀ n, Admitted (counts n)) :
    ReadsAll (readLog fs sbBread) counts 0 0 fs.content ↔ fs.iSize ≤ readableSize := by
  constructor
  · intro hreads
    by_contra hlarge
    exact absurd (not_readsAll hsize hdevice (Nat.not_le.mp hlarge) hcounts hreads) (Nat.not_lt_zero _)
  · intro hreadable
    have hserves := (readLog_serves hsize hdata hreadable).readsAll hcounts 0 0
    rwa [id, List.drop_zero] at hserves

section LargeFile

/-- A device that has every block below `2 ^ 63`. -/
def largeDevice (index : ℕ) : Bool := index < 2 ^ 63

theorem largeDevice_below {index : ℕ} (h : index < 2 ^ 63) : largeDevice index = true := decide_eq_true h

theorem largeDevice_behind (index : ℕ) (h : 2 ^ 63 ≤ index) : largeDevice index = false :=
  decide_eq_false (Nat.not_lt.mpr h)

/-- The theorem on a file of two blocks, a hundred bytes at a time. -/
theorem log_reads_back_two_blocks :
    ReadsAll (readLog ⟨fun _ i => UInt8.ofNat i, 5000, 0⟩ largeDevice) (fun _ => 100) 0 0
      (Refmonfs.content ⟨fun _ i => UInt8.ofNat i, 5000, 0⟩) := by
  refine (log_reads_back_iff ⟨fun _ i => UInt8.ofNat i, 5000, 0⟩ largeDevice (fun _ => 100) (by decide) ?_
    largeDevice_behind fun _ => ⟨by decide, by decide⟩).mpr (by decide)
  intro position hposition
  have hlt : position < 5000 := hposition
  apply largeDevice_below
  unfold DEFAULT_BLOCK_SIZE DEFAULT_INO_SIZE
  omega

/-- A log file of zeros that ends one byte behind the readable data. -/
def largeLog : Refmonfs := ⟨fun _ _ => 0, readableSize + 1, 0⟩

/-- The last byte of the file lies in a block that can be read, but its index is `2 ^ 31`, which as an
`int` is negative: reads that ask for as much as they can do not give the file. -/
theorem large_log_not_read :
    (∀ position, position < largeLog.iSize →
        largeDevice (position / DEFAULT_BLOCK_SIZE + DEFAULT_INO_SIZE) = true) ∧
      ¬ ReadsAll (readLog largeLog largeDevice) (fun _ => MAX_RW_COUNT) 0 0 largeLog.content := by
  have hlarge : largeLog.iSize = readableSize + 1 := rfl
  constructor
  · intro position hposition
    rw [hlarge] at hposition
    apply largeDevice_below
    unfold readableSize DEFAULT_BLOCK_SIZE DEFAULT_INO_SIZE at *
    omega
  · intro hreads
    have hend := not_readsAll (by decide) largeDevice_behind (hlarge ▸ Nat.lt_succ_self _)
      (fun _ => ⟨by decide, Nat.le_refl _⟩) hreads
    exact absurd hend (Nat.not_lt_zero _)

end LargeFile

end Refmon
