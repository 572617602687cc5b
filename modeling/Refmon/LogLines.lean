import Refmon.DeferredLog
import Refmon.Library.SeparatedText

/-!
# The lines of the log

`defer` formats a record as a line of six fields separated by tabs, in a buffer of `REFMON_LOGLEN`
bytes, while the path of the program may have nearly `PATH_MAX` bytes, of which any but NUL can occur.
-/

namespace Refmon

open SeparatedText

def tab : UInt8 := 9
def newline : UInt8 := 10

/-- A hash as `hexconv` renders it: 64 hexadecimal digits. -/
def IsRendered (hash : CString) : Prop := hash.length = 64 ∧ ∀ char ∈ hash, ∃ digit, char = hexDigit digit

/-- The fields of a record. -/
def recordFields (dataset : LogDataset) (hash : CString) : List (List UInt8) :=
  [Decimal.print dataset.tgid, Decimal.print dataset.tid, Decimal.print dataset.uid.toNat,
    Decimal.print dataset.euid.toNat, dataset.progPath.bytes, hash.bytes]

/-- The line that a record is meant to have. -/
def recordLine (dataset : LogDataset) (hash : CString) : List UInt8 :=
  line tab newline (recordFields dataset hash)

/-- The text is the record: it ends its line, has the path and the hash, and splits into one line
with these fields. -/
structure Decodes (dataset : LogDataset) (hash : CString) (text : List UInt8) : Prop where
  ends : text.getLast? = some newline
  hasPath : dataset.progPath.bytes <:+: text
  hasHash : hash.bytes <:+: text
  splits : records tab newline text = [recordFields dataset hash]

/-- The line of the record fits the buffer with its terminator, and the path has no separator. -/
def Representable (dataset : LogDataset) (hash : CString) : Prop :=
  (recordLine dataset hash).length < REFMON_LOGLEN ∧ tab ∉ dataset.progPath.bytes ∧
    newline ∉ dataset.progPath.bytes

/-- What `defer` formats is the beginning of the line. -/
theorem formatRecord_eq (dataset : LogDataset) (hash : CString) :
    formatRecord dataset hash = (recordLine dataset hash).take (REFMON_LOGLEN - 1) := by
  simp [formatRecord, recordLine, line, recordFields, List.intercalate, tab, newline]

/-- A printed integer has neither a tab nor a newline. -/
theorem print_free (z : ℤ) : tab ∉ Decimal.print z ∧ newline ∉ Decimal.print z := by
  constructor <;> intro h <;> rcases Decimal.print_chars h with hminus | hdigit
  · cases hminus
  · cases hdigit
  · cases hminus
  · cases hdigit

/-- A rendered hash has neither a tab nor a newline. -/
theorem rendered_free {hash : CString} (h : IsRendered hash) : tab ∉ hash.bytes ∧ newline ∉ hash.bytes := by
  have hdigits : ∀ digit, (hexDigit digit).val ≠ tab ∧ (hexDigit digit).val ≠ newline := by decide
  have hfree (char : UInt8) (hmem : char ∈ hash.bytes) : char ≠ tab ∧ char ≠ newline := by
    obtain ⟨c, hc, hval⟩ := List.mem_map.mp hmem
    obtain ⟨digit, hdigit⟩ := h.2 c hc
    rw [← hval, hdigit]
    exact hdigits digit
  exact ⟨fun hmem => (hfree tab hmem).1 rfl, fun hmem => (hfree newline hmem).2 rfl⟩

/-- The fields of a record are free of separators if its path is. -/
theorem recordFields_free_iff {dataset : LogDataset} {hash : CString} (hhash : IsRendered hash) :
    (∀ field ∈ recordFields dataset hash, tab ∉ field ∧ newline ∉ field) ↔
      tab ∉ dataset.progPath.bytes ∧ newline ∉ dataset.progPath.bytes := by
  simp only [recordFields, List.forall_mem_cons, List.not_mem_nil, false_implies, implies_true, and_true,
    print_free, rendered_free hhash, true_and, not_false_eq_true]

/-- The beginning of the line is the whole line if it fits the buffer. -/
theorem formatRecord_eq_line_iff (dataset : LogDataset) (hash : CString) :
    formatRecord dataset hash = recordLine dataset hash ↔ (recordLine dataset hash).length < REFMON_LOGLEN := by
  rw [formatRecord_eq, List.take_eq_self_iff]
  unfold REFMON_LOGLEN
  omega

/-- The text of a record decodes exactly if the record is representable. -/
theorem decodes_iff {dataset : LogDataset} {hash : CString} (hhash : IsRendered hash) :
    Decodes dataset hash (formatRecord dataset hash) ↔ Representable dataset hash := by
  have hsplit := @records_eq_singleton_iff _ tab newline _ _ (by decide) (formatRecord dataset hash)
    (recordFields dataset hash)
  rw [recordFields_free_iff hhash] at hsplit
  constructor
  · intro h
    obtain ⟨hwhole, -, hfree⟩ := hsplit.mp ⟨h.ends, h.splits⟩
    exact ⟨(formatRecord_eq_line_iff dataset hash).mp hwhole, hfree⟩
  · rintro ⟨hlength, hfree⟩
    have hwhole := (formatRecord_eq_line_iff dataset hash).mpr hlength
    obtain ⟨hends, hrecords⟩ := hsplit.mpr ⟨hwhole, List.cons_ne_nil _ _, hfree⟩
    refine ⟨hends, ?_, ?_, hrecords⟩
    · rw [hwhole]
      exact infix_line (by simp [recordFields])
    · rw [hwhole]
      exact infix_line (by simp [recordFields])

/-- The fields of a record determine it. -/
theorem recordFields_injective {dataset dataset' : LogDataset} {hash hash' : CString}
    (h : recordFields dataset hash = recordFields dataset' hash') : dataset = dataset' ∧ hash = hash' := by
  cases dataset
  cases dataset'
  simp only [recordFields, List.cons.injEq, and_true] at h
  obtain ⟨htgid, htid, huid, heuid, hpath, hhash⟩ := h
  have hunsigned {uid uid' : UInt32} (heq : Decimal.print uid.toNat = Decimal.print uid'.toNat) :
      uid = uid' := UInt32.toNat_inj.mp (Int.natCast_inj.mp (Decimal.print_injective heq))
  rw [Decimal.print_injective htgid, Decimal.print_injective htid, hunsigned huid, hunsigned heuid,
    CString.bytes_injective hpath, CString.bytes_injective hhash]
  exact ⟨rfl, rfl⟩

/-- The text of a record splits into one line with its fields, and ends that line, exactly if the line
fits the buffer and the path has neither a tab nor a newline. Two such records with the same text are
the same. -/
theorem log_lines_decode_iff (dataset : LogDataset) (hash : CString) (hhash : IsRendered hash) :
    (Decodes dataset hash (formatRecord dataset hash) ↔ Representable dataset hash) ∧
      (Representable dataset hash → ∀ dataset' hash', IsRendered hash' → Representable dataset' hash' →
        formatRecord dataset hash = formatRecord dataset' hash' → dataset = dataset' ∧ hash = hash') := by
  refine ⟨decodes_iff hhash, ?_⟩
  intro hrep dataset' hash' hhash' hrep' hsame
  have hrecords := ((decodes_iff hhash).mpr hrep).splits
  rw [hsame, ((decodes_iff hhash').mpr hrep').splits] at hrecords
  exact recordFields_injective (List.singleton_inj.mp hrecords).symm

/-- The hash of a path that fills the buffer is not in the text. -/
theorem formatRecord_of_long {dataset : LogDataset} (h : REFMON_LOGLEN ≤ dataset.progPath.length)
    (hash hash' : CString) : formatRecord dataset hash = formatRecord dataset hash' := by
  have hpath : dataset.progPath.bytes.length = dataset.progPath.length := List.length_map _
  have hfront (hash : CString) : formatRecord dataset hash =
      (Decimal.print dataset.tgid ++ [9] ++ Decimal.print dataset.tid ++ [9] ++
        Decimal.print dataset.uid.toNat ++ [9] ++ Decimal.print dataset.euid.toNat ++ [9] ++
        dataset.progPath.bytes).take (REFMON_LOGLEN - 1) := by
    rw [formatRecord, List.append_assoc _ [9], List.append_assoc _ ([9] ++ _),
      List.take_append_of_le_length]
    simp only [List.length_append, hpath]
    omega
  rw [hfront hash, hfront hash']

section BrokenLines

/-- A record of a program at this path. -/
def datasetOf (path : CString) : LogDataset := ⟨1, 1, 0, 0, path⟩

/-- Digits of one kind. -/
def hashOf (digit : Fin 16) : CString := List.replicate 64 (hexDigit digit)

theorem hashOf_rendered (digit : Fin 16) : IsRendered (hashOf digit) :=
  ⟨List.length_replicate, fun _ hmem => ⟨digit, List.eq_of_mem_replicate hmem⟩⟩

/-- The theorem on a program with a short path. -/
theorem log_lines_decode_iff_short :
    Decodes (datasetOf (lit "/bin/rm")) (hashOf 0) (formatRecord (datasetOf (lit "/bin/rm")) (hashOf 0)) :=
  (log_lines_decode_iff _ _ (hashOf_rendered 0)).1.mpr ⟨by decide +kernel, by decide, by decide⟩

/-- A path of more than `REFMON_LOGLEN` bytes. -/
def longPath : CString := lit "/" ++ List.replicate 600 (hexDigit 10)

/-- The line of a program whose path has a newline is two lines, and that of one with a long path has
no hash and no end, so that records with different hashes have the same text. -/
theorem long_path_cut :
    ¬ Decodes (datasetOf (lit "/a\nb")) (hashOf 0) (formatRecord (datasetOf (lit "/a\nb")) (hashOf 0)) ∧
      ¬ Decodes (datasetOf longPath) (hashOf 0) (formatRecord (datasetOf longPath) (hashOf 0)) ∧
      formatRecord (datasetOf longPath) (hashOf 0) = formatRecord (datasetOf longPath) (hashOf 1) := by
  have hlong : REFMON_LOGLEN ≤ longPath.length := by
    rw [longPath, List.length_append, List.length_replicate]
    decide
  refine ⟨fun h => ?_, fun h => ?_, formatRecord_of_long hlong _ _⟩
  · exact absurd ((decodes_iff (hashOf_rendered 0)).mp h).2.2 (by decide)
  · have hcut := ((decodes_iff (hashOf_rendered 0)).mp h).1
    have hfield : longPath.bytes ∈ recordFields (datasetOf longPath) (hashOf 0) := by
      simp [recordFields, datasetOf]
    have hlength : longPath.bytes.length ≤ (recordLine (datasetOf longPath) (hashOf 0)).length :=
      (infix_line hfield).length_le
    rw [CString.bytes, List.length_map] at hlength
    omega

end BrokenLines

end Refmon
