import Refmon.OpenMediation

/-!
# Which identifiers are eligible

The law: an identifier is eligible when an entry has its path or its inode number, or is an existing
directory whose components are a prefix of the path's. `search_entry` departs from it in two ways.
It takes a path that cannot be looked up for a directory; and it compares characters, so that the
root directory, and a directory whose path holds redundant separators, cover nothing below them.
-/

namespace Refmon

open Wp SlashPath

variable {δ : Type}

/-- A path of names with one separator in front of each. -/
def Canonical (path : CString) : Prop := ∃ names : List FileName, path = pathOf names

/-- The components of one path are a prefix of those of the other. -/
def Above (base path : CString) : Prop := components slash base <+: components slash path

/-- The path leads to an existing directory. -/
def Vfs.IsDirectory (fs : Vfs δ) (path : CString) : Prop :=
  ∃ dentry, fs.kernPath path true = .ok dentry ∧ (fs.inode dentry).isDir = true

/-- The path cannot be looked up. -/
def Vfs.Gone (fs : Vfs δ) (path : CString) : Prop := ∃ e, fs.kernPath path true = .error e

/-- The paths for which the comparison of characters is one of components: the canonical ones
other than the root. -/
def Comparable (path : CString) : Prop := Canonical path ∧ path ≠ [slash]

/-- An entry has the path of the identifier, or its inode number. -/
def Direct (registry : List RegistryEntry) (id : PathIdentifier) : Prop :=
  ∃ node ∈ registry, node.resolved.path = id.path ∨ node.resolved.inoNo = id.inoNo

/-- An entry of some kind has a path above that of the identifier. -/
def CoveredBy (kind : CString → Prop) (registry : List RegistryEntry) (id : PathIdentifier) : Prop :=
  ∃ node ∈ registry, kind node.resolved.path ∧ Above node.resolved.path id.path

/-- The law of eligibility. -/
def Vfs.LawfullyEligible (fs : Vfs δ) (registry : List RegistryEntry) (id : PathIdentifier) : Prop :=
  ∃ node ∈ registry, node.resolved.path = id.path ∨ node.resolved.inoNo = id.inoNo ∨
    fs.IsDirectory node.resolved.path ∧ Above node.resolved.path id.path

variable {fs : Vfs δ}

/-- What `is_dir` takes for a directory. -/
theorem dirOrGone_kinds (path : CString) : fs.DirOrGone path ↔ fs.IsDirectory path ∨ fs.Gone path := by
  unfold Vfs.DirOrGone Vfs.IsDirectory Vfs.Gone
  cases fs.kernPath path true with
  | error e => simp
  | ok dentry => simp

/-- The path test is the prefix test on components, for comparable paths. -/
theorem isSubpath_iff_above {base path : CString} (habs : isResolved base = true)
    (hcanonical : Canonical path) :
    isSubpath base path = true ↔ base = path ∨ Comparable base ∧ Above base path := by
  obtain ⟨names, hpath⟩ := hcanonical
  rw [hpath, isSubpath_iff, Comparable, and_assoc]
  exact boundary_iff (ne_nil_of_isResolved habs)

variable {registry : List RegistryEntry} {id : PathIdentifier}

/-- What `is_eligible` looks for, kind by kind. -/
theorem matches_iff_kinds (habs : ∀ node ∈ registry, isResolved node.resolved.path = true)
    (hcanonical : Canonical id.path) :
    (∃ node ∈ registry, fs.Matches node id) ↔
      Direct registry id ∨ CoveredBy (fun p => fs.IsDirectory p ∧ Comparable p) registry id ∨
        CoveredBy (fun p => fs.Gone p ∧ Comparable p) registry id := by
  constructor
  · intro ⟨node, hnode, hmatches⟩
    rcases hmatches with hpath | hino | ⟨hdir, hsub⟩
    · exact Or.inl ⟨node, hnode, Or.inl hpath⟩
    · exact Or.inl ⟨node, hnode, Or.inr hino⟩
    · rcases (isSubpath_iff_above (habs node hnode) hcanonical).mp hsub with hsame | ⟨hcomp, habove⟩
      · exact Or.inl ⟨node, hnode, Or.inl hsame⟩
      · rcases (dirOrGone_kinds _).mp hdir with hexists | hgone
        · exact Or.inr (Or.inl ⟨node, hnode, ⟨hexists, hcomp⟩, habove⟩)
        · exact Or.inr (Or.inr ⟨node, hnode, ⟨hgone, hcomp⟩, habove⟩)
  · intro hkind
    have hsub {node : RegistryEntry} (hnode : node ∈ registry) (hcomp : Comparable node.resolved.path)
        (habove : Above node.resolved.path id.path) : isSubpath node.resolved.path id.path = true :=
      (isSubpath_iff_above (habs node hnode) hcanonical).mpr (Or.inr ⟨hcomp, habove⟩)
    rcases hkind with ⟨node, hnode, hdirect⟩ | ⟨node, hnode, ⟨hexists, hcomp⟩, habove⟩ |
      ⟨node, hnode, ⟨hgone, hcomp⟩, habove⟩
    · exact ⟨node, hnode, hdirect.imp_right Or.inl⟩
    · have hdir := (dirOrGone_kinds _).mpr (Or.inl hexists)
      exact ⟨node, hnode, Or.inr (Or.inr ⟨hdir, hsub hnode hcomp habove⟩)⟩
    · have hdir := (dirOrGone_kinds _).mpr (Or.inr hgone)
      exact ⟨node, hnode, Or.inr (Or.inr ⟨hdir, hsub hnode hcomp habove⟩)⟩

/-- What the law looks for, kind by kind. -/
theorem lawfullyEligible_iff_kinds :
    fs.LawfullyEligible registry id ↔
      Direct registry id ∨ CoveredBy (fun p => fs.IsDirectory p ∧ Comparable p) registry id ∨
        CoveredBy (fun p => fs.IsDirectory p ∧ ¬ Comparable p) registry id := by
  constructor
  · intro ⟨node, hnode, hlaw⟩
    rcases hlaw with hpath | hino | ⟨hexists, habove⟩
    · exact Or.inl ⟨node, hnode, Or.inl hpath⟩
    · exact Or.inl ⟨node, hnode, Or.inr hino⟩
    · by_cases hcomp : Comparable node.resolved.path
      · exact Or.inr (Or.inl ⟨node, hnode, ⟨hexists, hcomp⟩, habove⟩)
      · exact Or.inr (Or.inr ⟨node, hnode, ⟨hexists, hcomp⟩, habove⟩)
  · intro hkind
    rcases hkind with ⟨node, hnode, hdirect⟩ | ⟨node, hnode, ⟨hexists, -⟩, habove⟩ |
      ⟨node, hnode, ⟨hexists, -⟩, habove⟩
    · exact ⟨node, hnode, hdirect.imp_right Or.inl⟩
    · exact ⟨node, hnode, Or.inr (Or.inr ⟨hexists, habove⟩)⟩
    · exact ⟨node, hnode, Or.inr (Or.inr ⟨hexists, habove⟩)⟩

variable {env : Env δ} {k : Kernel}

/-- `is_eligible` returns what the namespace matches. -/
theorem returned_isEligible (hsees : env.Sees fs) (hne : id.path ≠ []) :
    returned (isEligible env id k) = some true ↔
      ∃ node ∈ k.core.theInstance.registry, fs.Matches node id := by
  obtain ⟨found, t, hrun, hfound, -⟩ := wp_returns (wp_isEligible (k := k) hsees hne)
  rw [hrun, returned, Option.some.injEq]
  exact hfound

/-- For a canonical identifier, `is_eligible` follows the law exactly when an entry matches the
identifier directly, or an existing directory with a comparable path is above it, or else when both
or neither of these are above it: a comparable path that is gone, and an existing directory whose
path is the root's or holds redundant separators. -/
theorem eligible_lawful_iff (hsees : env.Sees fs)
    (habs : ∀ node ∈ k.core.theInstance.registry, isResolved node.resolved.path = true)
    (hcanonical : Canonical id.path) :
    (returned (isEligible env id k) = some true ↔
        fs.LawfullyEligible k.core.theInstance.registry id) ↔
      Direct k.core.theInstance.registry id ∨
        CoveredBy (fun p => fs.IsDirectory p ∧ Comparable p) k.core.theInstance.registry id ∨
        (CoveredBy (fun p => fs.Gone p ∧ Comparable p) k.core.theInstance.registry id ↔
          CoveredBy (fun p => fs.IsDirectory p ∧ ¬ Comparable p) k.core.theInstance.registry id) := by
  have hne : id.path ≠ [] := by
    obtain ⟨names, hpath⟩ := hcanonical
    rw [hpath]
    exact ne_nil_of_isResolved (isResolved_pathOf names)
  rw [returned_isEligible hsees hne, matches_iff_kinds habs hcanonical, lawfullyEligible_iff_kinds]
  tauto

section Departures

/-- The module after root has added the root directory. -/
def rootAdded : Kernel := step (rootAdd rootOnly (lit "/")) (bootedRecOn rootOnly)

/-- The filesystem without anything but its root directory. -/
def emptied : Layout where
  files := [(⟨0, []⟩, ⟨2, .dir⟩)]
  mounts := []

theorem emptied_sound : emptied.Sound where
  root := by decide +kernel
  above := by decide +kernel
  mounts := by decide +kernel

/-- What a process at the root sees of it. -/
abbrev emptiedView : Vfs Dentry := emptied.view emptied_sound.rootDir

/-- The identifiers of `/a` and of `/d/f`. -/
def idA : PathIdentifier := ⟨pathOf [fileName "a"], 5⟩

def idF : PathIdentifier := ⟨pathOf [fileName "d", fileName "f"], 4⟩

/-- The entries that the two additions leave. -/
theorem rootAdded_registry :
    rootAdded.core.theInstance.registry = [⟨⟨lit "/", 2⟩, ⟨lit "/", 2⟩⟩] := by decide +kernel

theorem linkedAdded_registry :
    (linkedAdded (lit "d")).core.theInstance.registry = [⟨⟨lit "//d", 3⟩, ⟨lit "/d", 3⟩⟩] := by
  decide +kernel

/-- The root directory is registered, and `/a` is not eligible although the root directory exists;
`/d` was registered and is gone with everything in it, and `/d/f` is eligible although no directory
above it is registered. -/
theorem eligibility_departs :
    (returned (isEligible (rootOnly.calm ciaoSha256) idA rootAdded) = some false ∧
        rootOnly.LawfullyEligible rootAdded.core.theInstance.registry idA) ∧
      returned (isEligible (emptiedView.calm ciaoSha256) idF (linkedAdded (lit "d"))) = some true ∧
        ¬ emptiedView.LawfullyEligible (linkedAdded (lit "d")).core.theInstance.registry idF := by
  refine ⟨⟨by decide +kernel, ?_⟩, by decide +kernel, ?_⟩
  · rw [rootAdded_registry]
    refine ⟨_, List.mem_singleton_self _, Or.inr (Or.inr ⟨⟨(), rfl, rfl⟩, ?_⟩)⟩
    exact components_prefix_iff.mpr (List.nil_prefix (l := [fileName "a"]))
  · rw [linkedAdded_registry]
    intro ⟨node, hnode, hlaw⟩
    rw [List.mem_singleton] at hnode
    subst hnode
    rcases hlaw with hpath | hino | ⟨⟨dentry, hfound, -⟩, -⟩
    · revert hpath
      decide +kernel
    · revert hino
      decide
    · have hgone : emptiedView.kernPath (lit "/d") true = .error (-ENOENT) := by decide +kernel
      rw [hgone] at hfound
      cases hfound

/-- The theorem for `/d/f`, where the directory `/d` is registered and exists. -/
theorem eligible_lawful_iff_below :
    returned (isEligible linkedEnv idF (linkedAdded (lit "d"))) = some true ↔
      (linkedFileNs.view linkedFile_sound.rootDir).LawfullyEligible
        (linkedAdded (lit "d")).core.theInstance.registry idF := by
  have habs : ∀ node ∈ (linkedAdded (lit "d")).core.theInstance.registry,
      isResolved node.resolved.path = true := by
    rw [linkedAdded_registry]
    decide
  apply (eligible_lawful_iff (Vfs.calm_sees _ _) habs
    ⟨[fileName "d", fileName "f"], rfl⟩).mpr
  right
  left
  rw [linkedAdded_registry]
  refine ⟨_, List.mem_singleton_self _, ⟨⟨⟨0, [fileName "d"]⟩, by decide +kernel, by decide +kernel⟩, ?_⟩, ?_⟩
  · exact ⟨⟨[fileName "d"], by decide +kernel⟩, by decide⟩
  · unfold Above
    decide +kernel

end Departures

end Refmon
