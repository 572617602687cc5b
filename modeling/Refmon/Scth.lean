import Mathlib.Data.Int.Notation
import Mathlib.Data.List.Basic
import Mathlib.Tactic.Common

/-!
# Free entries of the system-call table

`get_entries` of `scth.c`: the first two equal words among the first 256 of the table are
taken to be `sys_ni_syscall`, and further equal words are acquired until there are enough.
-/

namespace Refmon

def MAX_ACQUIRES : ℤ := 5

/-- The number of table entries that are examined. -/
def TABLE_ENTRIES : ℕ := 256

/-- `restore[++j] = entry; ret++`, done while fewer entries are held than were asked for. -/
def acquire (numAcquires : ℕ) (restore : List ℕ) (entry : ℕ) : List ℕ :=
  if restore.length < numAcquires then restore ++ [entry] else restore

/-- The first two entries that keep the same address, the lower one first. -/
def firstPair (p : ℕ → UInt64) : Option (ℕ × ℕ) :=
  (List.range TABLE_ENTRIES).findSome? fun i =>
    (List.range' (i + 1) (TABLE_ENTRIES - (i + 1))).findSome? fun z =>
      if p i = p z then some (i, z) else none

/-- The entries acquired once the pair `i`, `z` is found. -/
def acquireFrom (p : ℕ → UInt64) (numAcquires i z : ℕ) : List ℕ :=
  (List.range' (z + 1) (TABLE_ENTRIES - (z + 1))).foldl
    (fun restore k => if p i = p k then acquire numAcquires restore k else restore)
    (acquire numAcquires (acquire numAcquires [] i) z)

/-- `get_entries`: its result, and what it writes to `entry_ids` and `sys_ni_sys_call` when
it writes to them. -/
def getEntries (numAcquires : ℤ) (p : ℕ → UInt64) : ℤ × Option (List ℕ × UInt64) :=
  if numAcquires < 1 then (-1, none)
  else if numAcquires > MAX_ACQUIRES then (-1, none)
  else
    match firstPair p with
    | none => (-1, none)
    | some (i, z) =>
      let restore := acquireFrom p numAcquires.toNat i z
      if restore.length = numAcquires then (restore.length, some (restore, p i)) else (-1, none)

/-- Acquiring an entry adds at most that entry. -/
theorem acquire_mem {numAcquires entry id : ℕ} {restore : List ℕ}
    (h : id ∈ acquire numAcquires restore entry) : id ∈ restore ∨ id = entry := by
  unfold acquire at h
  split at h
  · simpa using h
  · exact Or.inl h

/-- The two entries of the pair keep the same address. -/
theorem firstPair_eq {p : ℕ → UInt64} {i z : ℕ} (h : firstPair p = some (i, z)) : p i = p z := by
  obtain ⟨i', -, hi⟩ := List.exists_of_findSome?_eq_some h
  obtain ⟨z', -, hz⟩ := List.exists_of_findSome?_eq_some hi
  split at hz
  · rename_i heq
    simp only [Option.some.injEq, Prod.mk.injEq] at hz
    rwa [hz.1, hz.2] at heq
  · cases hz

/-- Every acquired entry keeps the address of the pair. -/
theorem acquireFrom_eq {p : ℕ → UInt64} {numAcquires i z id : ℕ} (hpair : p i = p z)
    (h : id ∈ acquireFrom p numAcquires i z) : p id = p i := by
  have hfold (ks restore : List ℕ) (hrestore : ∀ id ∈ restore, p id = p i) :
      ∀ id ∈ ks.foldl (fun restore k => if p i = p k then acquire numAcquires restore k else restore)
        restore, p id = p i := by
    induction ks generalizing restore with
    | nil => exact hrestore
    | cons k ks ih =>
      apply ih
      dsimp only
      split
      · rename_i hk
        intro id hid
        rcases acquire_mem hid with hold | rfl
        · exact hrestore id hold
        · exact hk.symm
      · exact hrestore
  apply hfold _ _ _ id h
  intro id hid
  rcases acquire_mem hid with hid | rfl
  · rcases acquire_mem hid with hid | rfl
    · cases hid
    · rfl
  · exact hpair.symm

/-- What is written names as many entries as were asked for, all of which hold the address
reported as `sys_ni_syscall`; without a write the result is `-1`. -/
theorem getEntries_cases (numAcquires : ℤ) (p : ℕ → UInt64) :
    getEntries numAcquires p = (-1, none) ∨
      ∃ ids ni, getEntries numAcquires p = (numAcquires, some (ids, ni)) ∧
        ids.length = numAcquires ∧ ∀ id ∈ ids, p id = ni := by
  unfold getEntries
  split
  · exact Or.inl rfl
  split
  · exact Or.inl rfl
  cases hpair : firstPair p with
  | none => exact Or.inl rfl
  | some pair =>
    obtain ⟨i, z⟩ := pair
    dsimp only
    split
    · rename_i hlen
      refine Or.inr ⟨_, _, by rw [hlen], hlen, ?_⟩
      intro id hid
      exact acquireFrom_eq (firstPair_eq hpair) hid
    · exact Or.inl rfl

/-- The two entries of the pair are different, the lower one first. -/
theorem firstPair_lt {p : ℕ → UInt64} {i z : ℕ} (h : firstPair p = some (i, z)) : i < z := by
  obtain ⟨i', -, hi⟩ := List.exists_of_findSome?_eq_some h
  obtain ⟨z', hmem, hz⟩ := List.exists_of_findSome?_eq_some hi
  split at hz
  · simp only [Option.some.injEq, Prod.mk.injEq] at hz
    rw [List.mem_range'_1, hz.1, hz.2] at hmem
    omega
  · cases hz

/-- Both entries of the pair are among those examined. -/
theorem firstPair_bound {p : ℕ → UInt64} {i z : ℕ} (h : firstPair p = some (i, z)) :
    z < TABLE_ENTRIES := by
  obtain ⟨i', hmemi, hi⟩ := List.exists_of_findSome?_eq_some h
  obtain ⟨z', hmem, hz⟩ := List.exists_of_findSome?_eq_some hi
  split at hz
  · simp only [Option.some.injEq, Prod.mk.injEq] at hz
    rw [List.mem_range] at hmemi
    rw [List.mem_range'_1, hz.2] at hmem
    omega
  · cases hz

/-- Acquiring an entry that is not held yet keeps the entries distinct. -/
theorem acquire_nodup {numAcquires entry : ℕ} {restore : List ℕ} (h : restore.Nodup)
    (hnew : entry ∉ restore) : (acquire numAcquires restore entry).Nodup := by
  unfold acquire
  split
  · rw [List.nodup_append]
    refine ⟨h, by simp, fun id hid other hother heq => ?_⟩
    rw [heq, List.mem_singleton.mp hother] at hid
    exact hnew hid
  · exact h

/-- The scan moves upwards, so it acquires entries that are not held yet, up to its end. -/
theorem scan_nodup {p : ℕ → UInt64} {numAcquires i : ℕ} (count start : ℕ) (restore : List ℕ)
    (h : restore.Nodup) (hbelow : ∀ id ∈ restore, id < start) :
    ((List.range' start count).foldl
        (fun restore k => if p i = p k then acquire numAcquires restore k else restore) restore).Nodup ∧
      ∀ id ∈ (List.range' start count).foldl
        (fun restore k => if p i = p k then acquire numAcquires restore k else restore) restore,
        id < start + count := by
  induction count generalizing start restore with
  | zero => exact ⟨h, hbelow⟩
  | succ count ih =>
    rw [List.range'_succ, List.foldl_cons, Nat.add_comm count 1, ← Nat.add_assoc]
    split
    · apply ih
      · exact acquire_nodup h fun hmem => Nat.lt_irrefl _ (hbelow start hmem)
      · intro id hid
        rcases acquire_mem hid with hold | rfl
        · exact Nat.lt_succ_of_lt (hbelow id hold)
        · exact Nat.lt_succ_self id
    · exact ih _ _ h fun id hid => Nat.lt_succ_of_lt (hbelow id hid)

/-- The acquired entries are distinct ones of those examined. -/
theorem acquireFrom_nodup {p : ℕ → UInt64} {numAcquires i z : ℕ} (h : i < z) (hz : z < TABLE_ENTRIES) :
    (acquireFrom p numAcquires i z).Nodup ∧
      ∀ id ∈ acquireFrom p numAcquires i z, id < TABLE_ENTRIES := by
  have hfirst {id : ℕ} (hid : id ∈ acquire numAcquires [] i) : id = i :=
    (acquire_mem hid).resolve_left List.not_mem_nil
  have hend : z + 1 + (TABLE_ENTRIES - (z + 1)) = TABLE_ENTRIES := by omega
  rw [← hend]
  apply scan_nodup
  · apply acquire_nodup
    · exact acquire_nodup List.nodup_nil List.not_mem_nil
    · intro hmem
      exact Nat.ne_of_gt h (hfirst hmem)
  · intro id hid
    rcases acquire_mem hid with hid | rfl
    · rw [hfirst hid]
      exact Nat.lt_succ_of_lt h
    · exact Nat.lt_succ_self id

/-- The entries that are written are distinct ones of those examined. -/
theorem getEntries_nodup {numAcquires ret : ℤ} {p : ℕ → UInt64} {ids : List ℕ} {ni : UInt64}
    (h : getEntries numAcquires p = (ret, some (ids, ni))) :
    ids.Nodup ∧ ∀ id ∈ ids, id < TABLE_ENTRIES := by
  unfold getEntries at h
  split at h
  · cases (Prod.mk.inj h).2
  split at h
  · cases (Prod.mk.inj h).2
  cases hpair : firstPair p with
  | none =>
    rw [hpair] at h
    cases (Prod.mk.inj h).2
  | some pair =>
    obtain ⟨i, z⟩ := pair
    rw [hpair] at h
    dsimp only at h
    split at h
    · have hids := Option.some.inj (Prod.mk.inj h).2
      rw [← (Prod.mk.inj hids).1]
      exact acquireFrom_nodup (firstPair_lt hpair) (firstPair_bound hpair)
    · cases (Prod.mk.inj h).2

end Refmon
