import Refmon.OpenMediation

/-!
# Which opens count as writing

`is_write_acc` lists two access modes and three further flags, but it compares them with what
`get_accmods` has left of the flags, and that holds no flag beyond the access mode. The opens that
create, truncate or append are therefore seen only when their access mode is one for writing.
-/

namespace Refmon

open Wp

/-- The access mode is one for writing. -/
def HasWriteMode (fFlags : UInt32) : Prop :=
  fFlags &&& O_ACCMODE = O_WRONLY ∨ fFlags &&& O_ACCMODE = O_RDWR

/-- The open creates, truncates or appends. -/
def HasWriteBit (fFlags : UInt32) : Prop :=
  fFlags &&& O_CREAT ≠ 0 ∨ fFlags &&& O_TRUNC ≠ 0 ∨ fFlags &&& O_APPEND ≠ 0

/-- The open can modify the file, by one of the flags that `is_write_acc` lists. -/
def CanModify (fFlags : UInt32) : Prop := HasWriteMode fFlags ∨ HasWriteBit fFlags

/-- What `get_accmods` leaves is not changed by leaving it again. -/
theorem getAccmods_idem (fFlags : UInt32) : getAccmods (getAccmods fFlags) = getAccmods fFlags := by
  unfold getAccmods
  rw [UInt32.and_assoc, UInt32.and_self]

/-- A constant that `get_accmods` changes is never what it leaves. -/
theorem getAccmods_ne {constant : UInt32} (h : getAccmods constant ≠ constant) (fFlags : UInt32) :
    getAccmods fFlags ≠ constant := by
  intro heq
  apply h
  rw [← heq, getAccmods_idem]

/-- `is_write_acc` sees the access mode and nothing else. -/
theorem isWriteAcc_iff (fFlags : UInt32) : isWriteAcc fFlags = true ↔ HasWriteMode fFlags := by
  have hcreat : getAccmods fFlags ≠ O_CREAT := getAccmods_ne (by decide) fFlags
  have htrunc : getAccmods fFlags ≠ O_TRUNC := getAccmods_ne (by decide) fFlags
  have happend : getAccmods fFlags ≠ O_APPEND := getAccmods_ne (by decide) fFlags
  simp only [isWriteAcc, Bool.or_eq_true, beq_iff_eq, hcreat, htrunc, happend, or_false]
  rfl

variable {δ : Type} {env : Env δ} {dentry : δ} {id : PathIdentifier} {k m u : Kernel}

/-- The hook diverts the open of an eligible file exactly when `is_write_acc` holds. -/
theorem krpHookOpen_eligible (hid : identify env dentry k = .ok (some id) m)
    (heligible : isEligible env id m = .ok true u) (fFlags : UInt32) :
    returned (krpHookOpen env dentry fFlags k) = some KRP_TO_TAILHOOK ↔ isWriteAcc fFlags = true := by
  have hhook : krpHookOpen env dentry fFlags k =
      (if isWriteAcc fFlags then verdict env id else pure KRP_GO_AHEAD) m := by
    simp only [krpHookOpen, bind, EStateM.bind, hid]
  rw [hhook]
  by_cases hwrite : isWriteAcc fFlags = true
  · rw [if_pos hwrite]
    simp only [verdict, bind, EStateM.bind, heligible, hwrite, iff_true]
    rfl
  · rw [if_neg hwrite]
    apply iff_of_false _ hwrite
    change some KRP_GO_AHEAD ≠ some KRP_TO_TAILHOOK
    decide

/-- The hook diverts exactly the opens of an eligible file that can modify it, if and only if
the open has an access mode for writing or does not create, truncate or append. -/
theorem write_classification_iff (hid : identify env dentry k = .ok (some id) m)
    (heligible : isEligible env id m = .ok true u) (fFlags : UInt32) :
    (returned (krpHookOpen env dentry fFlags k) = some KRP_TO_TAILHOOK ↔ CanModify fFlags) ↔
      (HasWriteMode fFlags ∨ ¬ HasWriteBit fFlags) := by
  rw [krpHookOpen_eligible hid heligible, isWriteAcc_iff, CanModify]
  constructor
  · intro hiff
    by_cases hmode : HasWriteMode fFlags
    · exact Or.inl hmode
    · exact Or.inr fun hbit => hmode (hiff.mpr (Or.inr hbit))
  · intro hclass
    constructor
    · exact Or.inl
    · intro hmodify
      rcases hmodify with hmode | hbit
      · exact hmode
      · exact hclass.resolve_right (not_not.mpr hbit)

section Truncation

/-- The hook's identifier of `/d/f`, when the directory above it is registered. -/
def truncatedId : PathIdentifier := ⟨lit "/d/f", 4⟩

/-- The module after the hook has identified the file. -/
def truncatedAt : Kernel := after (identify linkedEnv linkedTarget (linkedAdded (lit "d")))

theorem truncated_identified :
    identify linkedEnv linkedTarget (linkedAdded (lit "d")) = .ok (some truncatedId) truncatedAt :=
  returned_eq_some (by decide +kernel)

theorem truncated_eligible :
    isEligible linkedEnv truncatedId truncatedAt =
      .ok true (after (isEligible linkedEnv truncatedId truncatedAt)) :=
  returned_eq_some (by decide +kernel)

/-- The file below a registered directory is opened with `O_RDONLY | O_TRUNC`: it is eligible and
loses its contents, and the hook goes ahead. -/
theorem truncating_open_goes_ahead :
    returned (isEligible linkedEnv truncatedId truncatedAt) = some true ∧
      CanModify (O_RDONLY ||| O_TRUNC) ∧
      returned (krpHookOpen linkedEnv linkedTarget (O_RDONLY ||| O_TRUNC) (linkedAdded (lit "d"))) =
        some KRP_GO_AHEAD := by
  refine ⟨by decide +kernel, ?_, by decide +kernel⟩
  exact Or.inr (Or.inr (Or.inl (by decide)))

/-- The theorem on that file, opened with `O_WRONLY | O_CREAT`. -/
theorem write_classification_iff_creating :
    returned (krpHookOpen linkedEnv linkedTarget (O_WRONLY ||| O_CREAT) (linkedAdded (lit "d"))) =
        some KRP_TO_TAILHOOK ↔ CanModify (O_WRONLY ||| O_CREAT) := by
  have hmode : HasWriteMode (O_WRONLY ||| O_CREAT) := Or.inl (by decide)
  exact (write_classification_iff truncated_identified truncated_eligible _).mpr (Or.inl hmode)

end Truncation

end Refmon
