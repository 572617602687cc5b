import Refmon.Scth

/-!
# Which entries are found

`get_entries` looks for the first entry whose word occurs again, takes it for the address of
`sys_ni_syscall`, and acquires the first entries that hold this word. If there are fewer than asked for, it
gives up, even where another word occurs often enough.
-/

namespace Refmon

/-- The entries behind one of them. -/
def entriesBehind (i : ℕ) : List ℕ := List.range' (i + 1) (TABLE_ENTRIES - (i + 1))

/-- The first entry whose word is found again behind it. -/
def firstRepeated (p : ℕ → UInt64) : Option ℕ :=
  (List.range TABLE_ENTRIES).find? fun i => (entriesBehind i).any fun z => p i = p z

/-- The entries that hold a word, in order. -/
def entriesOf (p : ℕ → UInt64) (word : UInt64) : List ℕ := (List.range TABLE_ENTRIES).filter fun k => word = p k

variable {p : ℕ → UInt64} {i z : ℕ}

/-- A search for pairs is a search for the first component, and then one for the second. -/
theorem findSome?_pairs (search : ℕ → Option ℕ) (entries : List ℕ) :
    (entries.findSome? fun i => (search i).map (Prod.mk i)) =
      (entries.find? fun i => (search i).isSome).bind fun i => (search i).map (Prod.mk i) := by
  induction entries with
  | nil => rfl
  | cons i entries ih =>
    cases hsearch : search i with
    | none => simp [hsearch, ih]
    | some z => simp [hsearch]

theorem findSome?_second (p : ℕ → UInt64) (i : ℕ) (entries : List ℕ) :
    (entries.findSome? fun z => if p i = p z then some (i, z) else none) =
      (entries.find? fun z => p i = p z).map (Prod.mk i) := by
  induction entries with
  | nil => rfl
  | cons z entries ih =>
    by_cases heq : p i = p z
    · simp [heq]
    · simp [heq, ih]

/-- The pair that is found is the first entry with a repeated word, and the next one that holds it. -/
theorem firstPair_eq_bind (p : ℕ → UInt64) :
    firstPair p = (firstRepeated p).bind fun i =>
      ((entriesBehind i).find? fun z => p i = p z).map (Prod.mk i) := by
  have hfirst := findSome?_pairs (fun i => (entriesBehind i).find? fun z => p i = p z) (List.range TABLE_ENTRIES)
  simp only [List.isSome_find?] at hfirst
  rw [firstRepeated, ← hfirst, firstPair]
  simp only [findSome?_second, entriesBehind]

/-- What is found behind an entry splits what is behind it. -/
theorem entriesBehind_split (h : (entriesBehind i).find? (fun z => p i = p z) = some z) :
    (entriesBehind i).filter (fun z => p i = p z) = z :: (entriesBehind z).filter fun k => p i = p k := by
  obtain ⟨hz, front, back, hsplit, hfront⟩ := List.find?_eq_some_iff_append.mp h
  have hback : back = entriesBehind z := by
    obtain ⟨k, hk, -, htail⟩ := List.range'_eq_append_iff.mp hsplit
    obtain ⟨hhead, hpos, hrest⟩ := List.range'_eq_cons_iff.mp htail.symm
    rw [hrest, entriesBehind]
    congr 1
    omega
  have hnone : front.filter (fun z => p i = p z) = [] := by
    rw [List.filter_eq_nil_iff]
    intro entry hentry
    simpa using hfront entry hentry
  rw [hsplit, List.filter_append, hnone, List.nil_append, List.filter_cons, if_pos hz, hback]

/-- No entry before the first one with a repeated word holds its word. -/
theorem entriesOf_firstRepeated (h : firstRepeated p = some i) :
    entriesOf p (p i) = i :: (entriesBehind i).filter fun z => p i = p z := by
  obtain ⟨-, hmem, hbefore⟩ := List.find?_range_eq_some.mp h
  have hi := List.mem_range.mp hmem
  have hsplit : List.range TABLE_ENTRIES = List.range i ++ i :: entriesBehind i := by
    have hcount : TABLE_ENTRIES = i + (TABLE_ENTRIES - (i + 1) + 1) := by omega
    rw [List.range_eq_range', List.range_eq_range', hcount, ← List.range'_append_1, List.range'_succ, Nat.zero_add,
      entriesBehind]
  have hnone : (List.range i).filter (fun k => p i = p k) = [] := by
    rw [List.filter_eq_nil_iff]
    intro k hk
    have hk := List.mem_range.mp hk
    have hnot := hbefore k hk
    intro heq
    have hbehind : i ∈ entriesBehind k := by
      rw [entriesBehind, List.mem_range'_1]
      omega
    simp at hnot heq
    exact hnot i hbehind heq.symm
  rw [entriesOf, hsplit, List.filter_append, hnone, List.nil_append, List.filter_cons]
  simp

/-- What is cut off may be cut off first. -/
theorem take_append_take (count : ℕ) (front back : List ℕ) :
    (front.take count ++ back).take count = (front ++ back).take count := by
  rw [List.take_append, List.take_append, List.take_take, Nat.min_self, List.length_take]
  rcases Nat.le_total count front.length with hle | hle
  · simp [Nat.min_eq_left hle, Nat.sub_eq_zero_of_le hle]
  · rw [Nat.min_eq_right hle]

/-- An entry is acquired if there are not enough yet. -/
theorem acquire_take (numAcquires entry : ℕ) (restore : List ℕ) :
    acquire numAcquires (restore.take numAcquires) entry = (restore ++ [entry]).take numAcquires := by
  rw [acquire, List.length_take]
  split
  · rename_i hlt
    rw [List.take_of_length_le (by omega), List.take_of_length_le (by simp; omega)]
  · rw [List.take_append_of_le_length (by omega)]

/-- Entries are acquired in order, until there are enough. -/
theorem foldl_acquire (numAcquires i : ℕ) (entries restore : List ℕ) :
    entries.foldl (fun restore k => if p i = p k then acquire numAcquires restore k else restore)
      (restore.take numAcquires) = (restore ++ entries.filter fun k => p i = p k).take numAcquires := by
  induction entries generalizing restore with
  | nil => simp
  | cons k entries ih =>
    rw [List.foldl_cons]
    by_cases heq : p i = p k
    · rw [if_pos heq, acquire_take, ih]
      simp [heq]
    · rw [if_neg heq, ih]
      simp [heq]

/-- The entries acquired from a pair on are the first that hold its word. -/
theorem acquireFrom_eq_take (numAcquires : ℕ) (h : firstRepeated p = some i)
    (hz : (entriesBehind i).find? (fun z => p i = p z) = some z) :
    acquireFrom p numAcquires i z = (entriesOf p (p i)).take numAcquires := by
  have hnothing : ([] : List ℕ) = ([] : List ℕ).take numAcquires := List.take_nil.symm
  rw [acquireFrom, hnothing, acquire_take, acquire_take, ← entriesBehind, foldl_acquire,
    entriesOf_firstRepeated h, entriesBehind_split hz]
  rfl

/-- `get_entries` takes the first word that occurs twice among the entries it examines for the address of
`sys_ni_syscall`. It returns the first entries that hold it, as many as asked for; if there are fewer, or no
word occurs twice, it returns `-1` and writes nothing. -/
theorem getEntries_exact (p : ℕ → UInt64) {numAcquires : ℤ} (hpos : 1 ≤ numAcquires)
    (hmax : numAcquires ≤ MAX_ACQUIRES) :
    getEntries numAcquires p =
      match firstRepeated p with
      | none => (-1, none)
      | some i =>
        if numAcquires ≤ (entriesOf p (p i)).length then
          (numAcquires, some ((entriesOf p (p i)).take numAcquires.toNat, p i))
        else (-1, none) := by
  rw [getEntries, if_neg (by omega), if_neg (by omega), firstPair_eq_bind]
  cases hfirst : firstRepeated p with
  | none => rfl
  | some i =>
    obtain ⟨hrepeated, -, -⟩ := List.find?_range_eq_some.mp hfirst
    rw [← List.isSome_find?] at hrepeated
    obtain ⟨z, hz⟩ := Option.isSome_iff_exists.mp hrepeated
    have hrestore := acquireFrom_eq_take numAcquires.toNat hfirst hz
    simp only [Option.bind_some, hz, Option.map_some, hrestore, List.length_take]
    by_cases henough : numAcquires ≤ (entriesOf p (p i)).length
    · have hlength : ((min numAcquires.toNat (entriesOf p (p i)).length : ℕ) : ℤ) = numAcquires := by omega
      rw [if_pos hlength, if_pos henough, hlength]
    · rw [if_neg (by omega), if_neg henough]

/-- A table in which the first word occurs twice, and another one six times. -/
def earlyPair (k : ℕ) : UInt64 := if k < 2 then 1 else if k < 8 then 2 else (k + 10).toUInt64

/-- The theorem for that table: four entries are not found. -/
theorem getEntries_exact_earlyPair : getEntries 4 earlyPair = (-1, none) := by
  have hfirst : firstRepeated earlyPair = some 0 := by decide +kernel
  have hcount : (entriesOf earlyPair (earlyPair 0)).length = 2 := by decide +kernel
  rw [getEntries_exact earlyPair (by decide) (by decide), hfirst]
  simp [hcount]

end Refmon
