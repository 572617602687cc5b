import Refmon.FsutilsSpecs

/-!
# Path functions in a namespace that stands still

Link resolution, inode lookups and the eligibility test have closed forms there. They are
exact up to failed allocations, which make `resolve_path_alloc` give up.
-/

namespace Refmon

open Wp

variable {δ : Type} {env : Env δ} {fs : Vfs δ}

/-- The path that link resolution computes in a namespace. -/
def Vfs.resolve (fs : Vfs δ) (path : CString) : Option CString :=
  match fs.kernPath path true with
  | .error _ => none
  | .ok dentry =>
    match fs.dentryPathRaw dentry with
    | .error _ => none
    | .ok out => if out.length ≥ PATH_MAX then none else some out

/-- The path that `_add_file` resolves to: an absolute path is its own resolution. -/
def Vfs.entryPath (fs : Vfs δ) (path : CString) : Option CString :=
  if isResolved path then some path else fs.resolve path

/-- The inode number found at a path, whose last component is not followed. -/
def Vfs.inoAt (fs : Vfs δ) (path : CString) : UInt64 :=
  match fs.kernPath path false with
  | .error _ => REFMON_NO_INO_NO
  | .ok dentry => (fs.inode dentry).ino

/-- What `is_dir` takes for a directory: one, or a path that cannot be looked up. -/
def Vfs.DirOrGone (fs : Vfs δ) (path : CString) : Prop :=
  match fs.kernPath path true with
  | .error _ => True
  | .ok dentry => (fs.inode dentry).isDir = true

/-- The three criteria of `is_eligible` for one entry. -/
def Vfs.Matches (fs : Vfs δ) (node : RegistryEntry) (id : PathIdentifier) : Prop :=
  node.resolved.path = id.path ∨ node.resolved.inoNo = id.inoNo ∨
    fs.DirOrGone node.resolved.path ∧ isSubpath node.resolved.path id.path = true

/-- Link resolution computes the namespace's answer, unless an allocation fails. -/
theorem wp_resolvePathAlloc_links (hsees : env.Sees fs) {k : Kernel} {path : CString} {flags : ℕ}
    (hlinks : hasFlag flags REFMON_FSUTILS_RESOLVE_LINKS = true)
    (hshort : ¬ (hasFlag flags REFMON_FSUTILS_IGNORE_ABSOLUTE_PATHS = true ∧ isResolved path = true))
    (hne : path ≠ []) :
    wp (resolvePathAlloc env (some path) flags)
      (fun out t => (out = fs.resolve path ∨ out = none ∧ ¬ env.Allocates) ∧ Same k t)
      (fun _ _ => False) k := by
  rw [resolvePathAlloc, if_neg (fun h => hne (List.length_eq_zero_iff.mp h))]
  refine wp_ask_else (fun t h hfail => ⟨Or.inr ⟨rfl, hfail⟩, h⟩) fun t₁ h₁ => ?_
  rw [if_neg hshort]
  refine wp_ask_else (fun t h hfail => ⟨Or.inr ⟨rfl, hfail⟩, Same.trans _ _ _ h₁ h⟩) fun t₂ h₂ => ?_
  have k₂ := Same.trans _ _ _ h₁ h₂
  rw [if_pos hlinks, wp_bind]
  refine wp_kernPath fun t₃ h₃ => ?_
  have k₃ := Same.trans _ _ _ k₂ h₃
  rw [hsees.kernPath, Vfs.resolve]
  cases fs.kernPath path true with
  | error e => exact ⟨Or.inl rfl, k₃⟩
  | ok dentry =>
    dsimp only
    rw [wp_bind]
    refine wp_ask fun t₄ h₄ => ?_
    have k₄ := Same.trans _ _ _ k₃ h₄
    rw [hsees.dentryPathRaw]
    cases fs.dentryPathRaw dentry with
    | error e => exact ⟨Or.inl rfl, Same.trans _ _ _ k₄ (Same.hold _ _)⟩
    | ok temp =>
      dsimp only
      split
      · exact ⟨Or.inl rfl, Same.trans _ _ _ k₄ (Same.hold _ _)⟩
      · exact ⟨Or.inl rfl, Same.trans _ _ _ k₄ (Same.hold _ _)⟩

/-- With both flags an absolute path is returned as it is and any other one is resolved. -/
theorem wp_resolvePathAlloc_entry (hsees : env.Sees fs) {k : Kernel} (path : CString) :
    wp (resolvePathAlloc env (some path)
        (REFMON_FSUTILS_RESOLVE_LINKS ||| REFMON_FSUTILS_IGNORE_ABSOLUTE_PATHS))
      (fun out t => (out = fs.entryPath path ∨ out = none) ∧ Same k t)
      (fun _ _ => False) k := by
  unfold Vfs.entryPath
  by_cases habs : isResolved path = true
  · rw [if_pos habs]
    apply wp_mono (wp_resolvePathAlloc_absolute rfl habs) _ fun _ _ hF => hF
    intro out t ⟨hout, ht⟩
    exact ⟨hout.imp_right And.left, ht⟩
  · rw [if_neg habs]
    by_cases hne : path = []
    · subst hne
      exact ⟨Or.inr rfl, Same.refl k⟩
    · apply wp_mono (wp_resolvePathAlloc_links hsees rfl (fun h => habs h.2) hne) _ fun _ _ hF => hF
      intro out t ⟨hout, ht⟩
      exact ⟨hout.imp_right And.left, ht⟩

/-- The inode number read is the one found in the namespace. -/
theorem wp_extractInoNoFromPath (hsees : env.Sees fs) {k : Kernel} (path : CString) :
    wp (extractInoNoFromPath env path) (fun ino t => ino = fs.inoAt path ∧ Same k t)
      (fun _ _ => False) k := by
  rw [extractInoNoFromPath, wp_bind]
  refine wp_kernPath fun t ht => ?_
  rw [hsees.kernPath, Vfs.inoAt]
  cases fs.kernPath path false with
  | error e => exact ⟨rfl, ht⟩
  | ok dentry => exact ⟨by rw [hsees.inode], ht⟩

/-- The directory test is non-zero for a directory and for a failed lookup. -/
theorem wp_isDir (hsees : env.Sees fs) {k : Kernel} (path : CString) :
    wp (isDir env path) (fun dir t => (dir ≠ 0 ↔ fs.DirOrGone path) ∧ Same k t)
      (fun _ _ => False) k := by
  rw [isDir, wp_bind]
  refine wp_kernPath fun t ht => ?_
  rw [hsees.kernPath, Vfs.DirOrGone]
  cases fs.kernPath path true with
  | error e => exact ⟨by simp, ht⟩
  | ok dentry =>
    refine ⟨?_, Same.trans _ _ _ ht (Same.hold _ _)⟩
    rw [hsees.inode]
    cases hdir : (fs.inode dentry).isDir <;> simp [hdir]

/-- An identifier with a path is eligible exactly when some entry matches it. -/
theorem wp_isEligible (hsees : env.Sees fs) {k : Kernel} {id : PathIdentifier}
    (hne : id.path ≠ []) :
    wp (isEligible env id)
      (fun found t => (found = true ↔ ∃ node ∈ k.core.theInstance.registry, fs.Matches node id) ∧
        Same k t)
      (fun _ _ => False) k := by
  set criteria := REFMON_SEARCH_CRIT_ABSOLUTE_PATH ||| REFMON_SEARCH_CRIT_ABSOLUTE_INO |||
    REFMON_SEARCH_CRIT_SUBDIR_CHECK with hcriteria
  have hnodes (nodes : List RegistryEntry) (k : Kernel) :
      wp (searchNodes env criteria id.path id.inoNo nodes)
        (fun found t => (found.isSome = true ↔ ∃ node ∈ nodes, fs.Matches node id) ∧ Same k t)
        (fun _ _ => False) k := by
    induction nodes generalizing k with
    | nil => exact ⟨by simp, Same.refl k⟩
    | cons node rest ih =>
      have hfields : matchesFields criteria node id.path id.inoNo = true ↔
          node.resolved.path = id.path ∨ node.resolved.inoNo = id.inoNo := by
        simp [matchesFields, hasFlag, hcriteria, REFMON_SEARCH_CRIT_REGISTERED_PATH,
          REFMON_SEARCH_CRIT_REGISTERED_INO, REFMON_SEARCH_CRIT_ABSOLUTE_PATH,
          REFMON_SEARCH_CRIT_ABSOLUTE_INO, REFMON_SEARCH_CRIT_SUBDIR_CHECK]
      rw [searchNodes]
      by_cases hdirect : matchesFields criteria node id.path id.inoNo = true
      · rw [if_pos hdirect]
        refine ⟨iff_of_true rfl ⟨node, List.mem_cons_self, ?_⟩, Same.refl k⟩
        exact (hfields.mp hdirect).imp_right Or.inl
      · rw [if_neg hdirect, if_pos (by decide), wp_bind]
        have hnot := fun h => hdirect (hfields.mpr h)
        refine wp_mono (wp_isDir hsees node.resolved.path) ?_ fun _ _ hF => hF
        rintro dir t ⟨hdir, ht⟩
        by_cases hsub : dir ≠ 0 ∧ isSubpath node.resolved.path id.path = true
        · rw [if_pos hsub]
          refine ⟨iff_of_true rfl ⟨node, List.mem_cons_self, ?_⟩, ht⟩
          exact Or.inr (Or.inr ⟨hdir.mp hsub.1, hsub.2⟩)
        · rw [if_neg hsub]
          refine wp_mono (ih t) ?_ fun _ _ hF => hF
          rintro found u ⟨hfound, hu⟩
          refine ⟨?_, Same.trans _ _ _ ht hu⟩
          have hhead : ¬ fs.Matches node id := by
            rintro (hpath | hino | hdirsub)
            · exact hnot (Or.inl hpath)
            · exact hnot (Or.inr hino)
            · exact hsub ⟨hdir.mpr hdirsub.1, hdirsub.2⟩
          rw [hfound, List.exists_mem_cons_iff, or_iff_right hhead]
  rw [isEligible, wp_bind, searchEntry, wp_bind, wp_gets]
  split
  · rename_i hempty
    rw [List.isEmpty_iff] at hempty
    refine ⟨?_, Same.refl k⟩
    rw [hempty]
    simp
  · dsimp only
    rw [if_neg (fun h => hne ((matchString_iff _ _).mp h.1))]
    exact hnodes _ k

end Refmon
