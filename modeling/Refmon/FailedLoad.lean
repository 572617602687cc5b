import Refmon.LoadSpecs
import Refmon.Vfs

/-!
# A load that fails

Whatever step fails, `init_module` runs the whole of `cleanup_module`. The probe that is
registered last is then unregistered although it never was registered, and when the failure
comes before `get_entries` has filled `restore`, the word in front of the table is cleared.
-/

namespace Refmon

open Wp

/-- A load left nothing behind: the words are what they were, and exactly what was created
has been removed. -/
structure LeavesNoTrace (k t : Kernel) : Prop where
  words : t.core.syscalls.words = k.core.syscalls.words
  createdRemoved : ∀ resource ∈ t.core.created, resource ∈ t.core.removed
  removedCreated : ∀ resource ∈ t.core.removed, resource ∈ t.core.created

/-- The clean-up removes every kind of resource there is. -/
theorem cleanup_removes_all (resource : Resource) :
    resource ∈ procFiles.map Resource.proc ++ probes.map Resource.kretprobe := by
  cases resource with
  | proc file => cases file <;> decide
  | kretprobe probe => cases probe <;> decide

/-- The words after the clean-up of an unfinished load: unchanged once entries were acquired,
and otherwise with a zero in front of the table. -/
theorem words_after_cleanup {k m : Kernel} (hfresh : Fresh k) (hm : Unfinished k m) :
    storeEach m.core.syscalls.restore (fun _ => m.core.syscalls.theNiSyscall) m.core.syscalls.words =
        k.core.syscalls.words ↔
      (∃ i, m.core.syscalls.restore i ≠ -1) ∨ k.core.syscalls.words (-1) = 0 := by
  rcases hm.syscalls with hsame | ⟨hrestorable, hindices⟩
  · rw [hsame, hfresh.theNiSyscall]
    have hnone : ¬ ∃ i, k.core.syscalls.restore i ≠ -1 := by
      intro ⟨i, hi⟩
      exact hi (hfresh.restore i)
    rw [or_iff_right hnone]
    constructor
    · intro h
      rw [← h, ← hfresh.restore 0]
      exact storeEach_const _ _ 0 0
    · intro hzero
      funext n
      by_cases hn : n = -1
      · rw [hn, hzero, ← hfresh.restore 0]
        exact storeEach_const _ _ 0 0
      · apply storeEach_of_ne
        intro i
        rw [hfresh.restore i]
        exact Ne.symm hn
  · apply iff_of_true hrestorable
    left
    refine ⟨0, fun h => ?_⟩
    have hzero := hindices 0
    omega

/-- Every load that fails leaves a trace: something is removed that was never created. All that
was created is removed, and the memory words are those from before the load exactly when entries
had been acquired or the word in front of the table was zero. -/
theorem initModule_failed_leaves_trace {δ : Type} (env : Env δ) (k t : Kernel) (ret : ℤ)
    (hfresh : Fresh k) (hrun : initModule env k = .ok ret t) (hret : ret ≠ 0) :
    ¬ LeavesNoTrace k t ∧ (∀ resource ∈ t.core.created, resource ∈ t.core.removed) ∧
      (t.core.syscalls.words = k.core.syscalls.words ↔
        (∃ i, t.core.syscalls.restore i ≠ -1) ∨ k.core.syscalls.words (-1) = 0) := by
  rcases wp_ok (wp_initModule env k) hrun with ⟨hzero, -⟩ | ⟨-, m, hm, habort⟩
  · exact absurd hzero hret
  rw [abort_eq] at habort
  cases habort
  have hall (resource : Resource) :
      resource ∈ m.core.removed ++ procFiles.map .proc ++ probes.map .kretprobe := by
    rw [List.append_assoc]
    exact List.mem_append_right _ (cleanup_removes_all resource)
  refine ⟨fun hclean => ?_, fun resource _ => hall resource, words_after_cleanup hfresh hm⟩
  exact hm.created hfresh.created (hclean.removedCreated _ (hall _))

/-- The module as inserted, with a table at address `0x1000` and the word `7` in front of it. -/
def inserted : Kernel where
  core :=
    { theInstance := ⟨.OFF, [], none⟩
      registered := fun _ => false
      enabled := fun _ => false
      syscalls :=
        { theSyscallTable := 0x1000
          words := fun _ => 7
          restore := fun _ => -1
          theNiSyscall := 0
          syscallCodes := ⟨0, 0, 0, 0⟩ }
      created := []
      removed := [] }
  lock := false
  aux := ⟨0, 0, 0⟩

theorem inserted_fresh : Fresh inserted := by
  constructor <;> intros <;> rfl

/-- A kernel without the hash algorithm. -/
def noCrypto : Env Unit := { rootOnly.calm (fun _ => Vector.replicate _ 0) with crypto := fun _ => false }

/-- Without the hash algorithm the load fails at its first step, clears the word in front of
the table and unregisters probes that were never registered. -/
theorem initModule_noCrypto_leaves_trace : Fresh inserted ∧
    ∃ t, initModule noCrypto inserted = .ok (-ENOTRECOVERABLE) t ∧
      inserted.core.syscalls.words (-1) = 7 ∧ t.core.syscalls.words (-1) = 0 ∧
      t.core.created = [] ∧ Resource.kretprobe .vfsOpen ∈ t.core.removed ∧
      ¬ LeavesNoTrace inserted t := by
  refine ⟨inserted_fresh, _, rfl, rfl, by decide, rfl, by decide, fun hclean => ?_⟩
  have hwords := congrFun hclean.words (-1)
  revert hwords
  decide

/-- The theorem on failed loads at the load without the hash algorithm. -/
theorem initModule_failed_leaves_trace_noCrypto :
    ∃ t, ¬ LeavesNoTrace inserted t ∧ (∀ resource ∈ t.core.created, resource ∈ t.core.removed) ∧
      (t.core.syscalls.words = inserted.core.syscalls.words ↔
        (∃ i, t.core.syscalls.restore i ≠ -1) ∨ inserted.core.syscalls.words (-1) = 0) :=
  ⟨_, initModule_failed_leaves_trace noCrypto inserted _ (-ENOTRECOVERABLE) inserted_fresh rfl
    (by decide)⟩

end Refmon
