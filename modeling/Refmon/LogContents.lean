import Refmon.FileHash
import Refmon.LogLines
import Refmon.LogReads
import Refmon.LogRemount
import Refmon.LogWrites

/-!
# What a reader of the log finds

The device is filled with zeros before it is formatted. A record that does not fit the rest of its
block leaves zeros there, and no record has a zero in it: whoever drops the zeros of the file and
splits it at the ends of lines finds the first line of the formatter, and then the records, in the
order in which they were written.
-/

namespace Refmon

open Blocks Extents LittleEndian ReadLoop SeparatedText

/-- Behind the end of the file there are zeros. -/
def Refmonfs.ZeroBehind (fs : Refmonfs) : Prop := ∀ position, fs.iSize ≤ position → fs.byte position = 0

/-- Some bytes without the zeros among them. -/
def dropZeros (bytes : List UInt8) : List UInt8 := bytes.filter (· != 0)

/-- What the file holds besides zeros. -/
def Refmonfs.text (fs : Refmonfs) : List UInt8 := dropZeros fs.content

theorem dropZeros_append (first rest : List UInt8) :
    dropZeros (first ++ rest) = dropZeros first ++ dropZeros rest := List.filter_append _ _

/-- Nothing is left of zeros. -/
theorem dropZeros_zeros (count : ℕ) : dropZeros (List.replicate count 0) = [] := by
  rw [dropZeros, List.filter_eq_nil_iff]
  intro byte hbyte
  rw [List.eq_of_mem_replicate hbyte]
  decide

/-- Bytes that are not zero stay. -/
theorem dropZeros_free {bytes : List UInt8} (h : 0 ∉ bytes) : dropZeros bytes = bytes := by
  rw [dropZeros, List.filter_eq_self]
  intro byte hbyte
  rw [bne_iff_ne]
  exact fun hzero => h (hzero ▸ hbyte)

section Write

variable {fs : Refmonfs} {bytes : List UInt8}

/-- The file after a segment of up to a block has been copied: the segment where the record goes, and
the old bytes elsewhere. -/
theorem recorded_byte (hlength : bytes.length ≤ DEFAULT_BLOCK_SIZE)
    (hindex : recordBlock fs.iSize bytes.length < 2 ^ 31) (position : ℕ) :
    (fs.recorded bytes).byte position =
      if recordOffset fs.iSize bytes.length ≤ position ∧
          position < recordOffset fs.iSize bytes.length + bytes.length then
        bytes.getD (position - recordOffset fs.iSize bytes.length) 0
      else fs.byte position := by
  rw [← byte_memcpy fs _ _ (recordOffset_block hlength), Refmonfs.byte, recorded_blocks,
    sector_toInt hindex]
  rfl

/-- Behind the record there are zeros again. -/
theorem Refmonfs.ZeroBehind.recorded (hzero : fs.ZeroBehind) (hlength : bytes.length ≤ DEFAULT_BLOCK_SIZE)
    (hindex : recordBlock fs.iSize bytes.length < 2 ^ 31) : (fs.recorded bytes).ZeroBehind := by
  intro position hposition
  have hend : recordOffset fs.iSize bytes.length + bytes.length ≤ position := hposition
  have hle := le_recordOffset fs.iSize bytes.length
  rw [recorded_byte hlength hindex, if_neg (by omega)]
  exact hzero position (by omega)

/-- The file grows by zeros, up to where the record goes, and by the record. -/
theorem content_recorded (hzero : fs.ZeroBehind) (hlength : bytes.length ≤ DEFAULT_BLOCK_SIZE)
    (hindex : recordBlock fs.iSize bytes.length < 2 ^ 31) :
    (fs.recorded bytes).content =
      fs.content ++ List.replicate (recordOffset fs.iSize bytes.length - fs.iSize) 0 ++ bytes := by
  have hle := le_recordOffset fs.iSize bytes.length
  have hsize : (fs.recorded bytes).iSize =
      fs.iSize + (recordOffset fs.iSize bytes.length - fs.iSize) + bytes.length := by
    have hrecorded : (fs.recorded bytes).iSize = recordOffset fs.iSize bytes.length + bytes.length := rfl
    omega
  apply List.ext_getElem
  · simp only [Refmonfs.content, List.length_append, List.length_map, List.length_range,
      List.length_replicate, hsize]
  · intro i hi _
    rw [Refmonfs.content, List.length_map, List.length_range, hsize] at hi
    simp only [Refmonfs.content, List.getElem_map, List.getElem_range, List.getElem_append,
      List.length_append, List.length_map, List.length_range, List.length_replicate,
      List.getElem_replicate]
    rw [recorded_byte hlength hindex]
    split_ifs with hin hgap hold hold
    · omega
    · omega
    · rw [List.getD_eq_getElem _ _ (by omega)]
      congr 1
      omega
    · rfl
    · exact hzero i (by omega)
    · omega

/-- What is found in the file grows by the record. -/
theorem text_recorded (hzero : fs.ZeroBehind) (hlength : bytes.length ≤ DEFAULT_BLOCK_SIZE)
    (hindex : recordBlock fs.iSize bytes.length < 2 ^ 31) (hfree : 0 ∉ bytes) :
    (fs.recorded bytes).text = fs.text ++ bytes := by
  rw [Refmonfs.text, content_recorded hzero hlength hindex, dropZeros_append, dropZeros_append,
    dropZeros_zeros, List.append_nil, dropZeros_free hfree, Refmonfs.text]

end Write

/-- The log file in use: it lies in blocks whose index is an `int`, with zeros behind its end, and what is
found in it is this text. -/
structure Refmonfs.Reads (fs : Refmonfs) (text : List UInt8) : Prop where
  zeroBehind : fs.ZeroBehind
  size : fs.iSize ≤ readableSize
  text : fs.text = text

/-- A write fails and changes nothing, or appends its segment to what is found in the file. -/
theorem Refmonfs.Reads.write {fs : Refmonfs} {text : List UInt8} (h : fs.Reads text) {call : WriteCall}
    (hfits : call.FitsBlock) (hreaches : call.ReachesBlock fs) (hfree : 0 ∉ call.kvec) :
    onefilefsWriteAsync call fs = (.error (- EIO), fs) ∨
      ∃ after, onefilefsWriteAsync call fs = (.ok call.outSize, after) ∧ after.Reads (text ++ call.kvec) := by
  rcases onefilefsWriteAsync_cases call fs with ⟨-, hfail, -⟩ | ⟨hread, -⟩
  · exact Or.inl hfail
  have hindex := hreaches.resolve_right fun hunreadable => hread (Or.inr hunreadable)
  have hlength := hfits.2
  have hblock : recordOffset fs.iSize call.kvec.length % DEFAULT_BLOCK_SIZE + call.kvec.length ≤
      DEFAULT_BLOCK_SIZE := recordOffset_block hlength
  have hsmall : recordOffset fs.iSize call.kvec.length + call.kvec.length < 2 ^ 64 ∧
      recordOffset fs.iSize call.kvec.length + call.kvec.length ≤ readableSize := by
    unfold recordBlock at hindex
    unfold readableSize
    unfold DEFAULT_BLOCK_SIZE DEFAULT_INO_SIZE at *
    omega
  refine Or.inr ⟨_, write_readable hsmall.1 hread, h.zeroBehind.recorded hlength hindex, hsmall.2, ?_⟩
  rw [text_recorded h.zeroBehind hlength hindex hfree, h.text]

/-- A write that fails changes nothing. -/
theorem write_failed {call : WriteCall} {fs after : Refmonfs} {e : ℤ}
    (h : onefilefsWriteAsync call fs = (.error e, after)) : after = fs := by
  rcases onefilefsWriteAsync_cases call fs with ⟨-, hfail, -⟩ | ⟨hread, hwrite, -⟩
  · exact (Prod.mk.inj (h.symm.trans hfail)).2
  · have hblock : call.sbBread 1 (sector (toInt (recordBlock fs.iSize call.kvec.length))) ≠ false :=
      fun hunreadable => hread (Or.inr hunreadable)
    rw [writeBlock, if_neg hblock] at hwrite
    cases (Prod.mk.inj (h.symm.trans hwrite)).1

/-- A segment of less than a block goes to a block whose index is an `int`, or that the device does not have. -/
theorem Refmonfs.Reads.reachesBlock {fs : Refmonfs} {text : List UInt8} (h : fs.Reads text) {call : WriteCall}
    (hlength : call.kvec.length < DEFAULT_BLOCK_SIZE)
    (hdevice : ∀ index, 2 ^ 63 ≤ index → call.sbBread 1 index = false) : call.ReachesBlock fs := by
  have hsize := h.size
  have hlast : readableSize / DEFAULT_BLOCK_SIZE + DEFAULT_INO_SIZE = 2 ^ 31 := by decide +kernel
  have hindex : recordBlock fs.iSize call.kvec.length < 2 ^ 31 ∨
      recordBlock fs.iSize call.kvec.length = 2 ^ 31 := by
    unfold recordBlock recordOffset readableSize DEFAULT_BLOCK_SIZE DEFAULT_INO_SIZE at *
    split <;> omega
  rcases hindex with hindex | hindex
  · exact Or.inl hindex
  · rw [WriteCall.ReachesBlock, hindex, ← hlast]
    exact Or.inr (hdevice _ sector_readableSize)

/-- Reads with any counts give a file in which this text is found. -/
theorem Refmonfs.Reads.readsAll {fs : Refmonfs} {text : List UInt8} (h : fs.Reads text)
    {sbBread : ℕ → Bool} {counts : ℕ → ℕ}
    (hdata : ∀ position, position < fs.iSize →
      sbBread (position / DEFAULT_BLOCK_SIZE + DEFAULT_INO_SIZE) = true)
    (hcounts : ∀ n, Admitted (counts n)) :
    ∃ content, ReadsAll (readLog fs sbBread) counts 0 0 content ∧ dropZeros content = text := by
  have hsmall : fs.iSize < 2 ^ 63 := Nat.lt_of_le_of_lt h.size (by decide)
  have hserves := (readLog_serves hsmall hdata h.size).readsAll hcounts 0 0
  rw [id, List.drop_zero] at hserves
  exact ⟨_, hserves, h.text⟩

section Format

theorem fileInode_length (call : MakefsRun) : call.fileInode.length = 32 := by
  rw [MakefsRun.fileInode, List.length_append, inodeHead_length, encode_length]
  rfl

/-- The device was filled with zeros and then formatted. -/
def FormattedZeros (dev : Device) : Prop :=
  ∃ call : MakefsRun, call.ret 0 = DEFAULT_BLOCK_SIZE ∧ singlefilemakefs call (fun _ _ => 0) = (0, dev)

variable {dev : Device}

theorem FormattedZeros.formatted (h : FormattedZeros dev) : Formatted dev := by
  obtain ⟨call, hsb, hrun⟩ := h
  exact ⟨call, _, hsb, hrun⟩

/-- Behind the block of the inode, the formatter has written the first line and nothing else. -/
theorem FormattedZeros.byte (h : FormattedZeros dev) (size position : ℕ) :
    (Refmonfs.mk dev size 0).byte position = fileBody.bytes.getD position 0 := by
  obtain ⟨call, hsb, hrun⟩ := h
  have hfailed (m : Device) : ((-1 : ℤ), m) ≠ (0, dev) := fun heq => absurd (Prod.mk.inj heq).1 (by decide)
  unfold singlefilemakefs at hrun
  dsimp only at hrun
  rw [if_neg (not_not.mpr hsb)] at hrun
  split_ifs at hrun with hargs hopens hinode hpadding hbody
  · exact absurd hrun (hfailed _)
  · exact absurd hrun (hfailed _)
  · exact absurd hrun (hfailed _)
  · exact absurd hrun (hfailed _)
  · exact absurd hrun (hfailed _)
  have hblock : (position + 2 * DEFAULT_BLOCK_SIZE) / DEFAULT_BLOCK_SIZE =
      position / DEFAULT_BLOCK_SIZE + DEFAULT_INO_SIZE := by
    unfold DEFAULT_BLOCK_SIZE DEFAULT_INO_SIZE
    omega
  have hplace : (Refmonfs.mk dev size 0).byte position =
      byteAt blockSize_pos dev (position + 2 * DEFAULT_BLOCK_SIZE) := by
    simp only [Refmonfs.byte, byteAt, hblock, Nat.add_mul_mod_self_right]
  have hpad : call.blockPadding.length = DEFAULT_BLOCK_SIZE - 32 := unassigned_length _ _ _
  have hsblength : call.ret 0 = call.sb.length := by rw [hsb, sb_length]
  have hdev := (Prod.mk.inj hrun).2
  rw [write_all _ _ _ hsblength, write_all _ _ _ (not_not.mp hinode), write_all _ _ _ (not_not.mp hpadding),
    write_all _ _ _ (not_not.mp hbody)] at hdev
  rw [hplace, ← hdev, byteAt_store, if_pos (Nat.le_add_left _ _), Nat.add_sub_cancel,
    byteAt_store_behind, byteAt_store_behind, byteAt_store_behind]
  · rfl
  · rw [sb_length]
    unfold DEFAULT_BLOCK_SIZE
    omega
  · rw [fileInode_length]
    unfold DEFAULT_BLOCK_SIZE
    omega
  · rw [hpad]
    unfold DEFAULT_BLOCK_SIZE
    omega

/-- After its first mount the log holds the first line. -/
theorem FormattedZeros.reads (h : FormattedZeros dev) :
    (Refmonfs.mk dev fileBody.length 0).Reads fileBody.bytes := by
  have hlength : fileBody.bytes.length = fileBody.length := List.length_map _
  have hsmall : fileBody.length ≤ readableSize := by decide
  refine ⟨?_, hsmall, ?_⟩
  · intro position hposition
    have hle : fileBody.length ≤ position := hposition
    rw [h.byte, List.getD_eq_getElem?_getD, List.getElem?_eq_none (by omega)]
    rfl
  · have hcontent : (Refmonfs.mk dev fileBody.length 0).content = fileBody.bytes := by
      apply List.ext_getElem
      · rw [Refmonfs.content, List.length_map, List.length_range, hlength]
      · intro i _ hi
        simp only [Refmonfs.content, List.getElem_map, List.getElem_range]
        rw [h.byte, List.getD_eq_getElem _ _ hi]
    rw [Refmonfs.text, hcontent, dropZeros_free (zero_not_mem_bytes _)]

/-- So it does whenever the device is mounted, as the formatter left it. -/
theorem FormattedZeros.mounted (h : FormattedZeros dev) {call : MountCall} {fs : Refmonfs}
    (hmount : mountLog call dev = some fs) : fs.Reads fileBody.bytes := by
  rw [mountLog_some hmount, h.formatted.fields.2]
  exact h.reads

end Format

section Lines

variable {dataset : LogDataset} {hash : CString}

/-- The fields of the first line. -/
def firstFields : List (List UInt8) :=
  [lit "tgid", lit "tid", [], lit "uid", [], lit "euid", lit "path", [], [], lit "sha"].map CString.bytes

theorem line_firstFields : line tab newline firstFields = fileBody.bytes := by decide

/-- A printed integer has no zero in it. -/
theorem zero_not_mem_print (z : ℤ) : 0 ∉ Decimal.print z := by
  intro h
  rcases Decimal.print_chars h with hminus | hdigit
  · cases hminus
  · cases hdigit

/-- No text that `defer` formats has a zero in it. -/
theorem zero_not_mem_formatRecord (dataset : LogDataset) (hash : CString) :
    0 ∉ formatRecord dataset hash := by
  intro hzero
  rw [formatRecord_eq] at hzero
  have hline := List.mem_of_mem_take hzero
  rw [recordLine, line, List.mem_append, List.mem_singleton] at hline
  rcases hline with hfields | hstop
  · rcases exists_field_of_mem hfields with hsep | ⟨field, hfield, hmem⟩
    · cases hsep
    · have hfree : ∀ field ∈ recordFields dataset hash, 0 ∉ field := by
        simp only [recordFields, List.forall_mem_cons, zero_not_mem_print, zero_not_mem_bytes,
          not_false_eq_true, true_and, List.not_mem_nil, false_implies, implies_true]
      exact hfree field hfield hmem
  · cases hstop

/-- Each leaves a byte of a block spare, and is not empty. -/
theorem formatRecord_length (dataset : LogDataset) (hash : CString) :
    1 ≤ (formatRecord dataset hash).length ∧ (formatRecord dataset hash).length < DEFAULT_BLOCK_SIZE := by
  have hline : 1 ≤ (recordLine dataset hash).length := by
    rw [recordLine, line, List.length_append, List.length_singleton]
    exact Nat.le_add_left _ _
  rw [formatRecord_eq, List.length_take]
  unfold REFMON_LOGLEN DEFAULT_BLOCK_SIZE
  omega

/-- The text of a record that is representable is its line. -/
theorem Representable.formatRecord_eq (h : Representable dataset hash) :
    formatRecord dataset hash = recordLine dataset hash := (formatRecord_eq_line_iff _ _).mpr h.1

/-- Behind the first line, the texts of representable records split into the fields of each. -/
theorem records_of_representable {lines : List (LogDataset × CString)}
    (hrendered : ∀ entry ∈ lines, IsRendered entry.2)
    (hrep : ∀ entry ∈ lines, Representable entry.1 entry.2) :
    records tab newline (fileBody.bytes ++ (lines.map fun entry => formatRecord entry.1 entry.2).flatten) =
      firstFields :: lines.map fun entry => recordFields entry.1 entry.2 := by
  have htexts : (lines.map fun entry => formatRecord entry.1 entry.2) =
      (lines.map fun entry => recordFields entry.1 entry.2).map (line tab newline) := by
    rw [List.map_map]
    exact List.map_congr_left fun entry hentry => (hrep entry hentry).formatRecord_eq
  rw [htexts, ← line_firstFields, ← List.flatten_cons, ← List.map_cons]
  apply records_flatten (by decide)
  intro fields hfields
  rcases List.mem_cons.mp hfields with hfirst | hrest
  · rw [hfirst]
    exact ⟨List.cons_ne_nil _ _, by decide⟩
  · obtain ⟨entry, hentry, heq⟩ := List.mem_map.mp hrest
    rw [← heq]
    exact ⟨List.cons_ne_nil _ _, (recordFields_free_iff (hrendered entry hentry)).mpr (hrep entry hentry).2⟩

end Lines

end Refmon
