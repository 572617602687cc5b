import Refmon.HookSpecs
import Refmon.Library.SlashPath

/-!
# Mounted filesystems

`MountNamespace` states what the module relies on in the kernel's path functions, for any number
of mounted filesystems and any working directory. A dentry is known by its place within its own
filesystem, which is all that `dentry_path_raw` prints; lookups walk the whole namespace.
`SingleMount` adds what holds when only one filesystem is mounted.
-/

namespace Refmon

open SlashPath

/-- The name of a directory entry. -/
abbrev FileName := Name slash

/-- The path of a place in a filesystem. -/
abbrev pathOf (names : List FileName) : CString := render names

/-- What the processes of a namespace see, each from its own working directory. -/
structure MountNamespace (π δ : Type) where
  view : π → Vfs δ
  names : δ → List FileName
  inode : δ → Inode
  device : δ → ℕ
  isLink : δ → Prop
  dir_not_link : ∀ dentry, (inode dentry).isDir = true → ¬ isLink dentry
  view_inode : ∀ w, (view w).inode = inode
  view_dentryPathRaw : ∀ w dentry, (view w).dentryPathRaw dentry =
    if (pathOf (names dentry)).length < PATH_MAX then .ok (pathOf (names dentry))
    else .error (-ENAMETOOLONG)
  kernPath_absolute : ∀ w w' path follow, isResolved path = true →
    (view w).kernPath path follow = (view w').kernPath path follow
  follow_not_link : ∀ w path dentry, (view w).kernPath path true = .ok dentry → ¬ isLink dentry
  follow_of_not_link : ∀ w path dentry, (view w).kernPath path false = .ok dentry →
    ¬ isLink dentry → (view w).kernPath path true = .ok dentry

/-- Paths of names are absolute. -/
theorem isResolved_pathOf (names : List FileName) : isResolved (pathOf names) = true := by
  rw [isResolved, head?_render]
  rfl

/-- The path test on paths of names: the base is an ancestor, and not the root unless both are. -/
theorem isSubpath_pathOf (base sub : List FileName) :
    isSubpath (pathOf base) (pathOf sub) = true ↔ base = sub ∨ base ≠ [] ∧ base <+: sub := by
  rw [isSubpath_iff]
  exact render_boundary_iff

namespace MountNamespace

variable {π δ : Type} (ns : MountNamespace π δ)

/-- The path of a dentry within its own filesystem. -/
def ownPath (dentry : δ) : CString := pathOf (ns.names dentry)

/-- The dentry's path fits a buffer. -/
def Fits (dentry : δ) : Prop := (ns.ownPath dentry).length < PATH_MAX

instance (dentry : δ) : Decidable (ns.Fits dentry) := inferInstanceAs (Decidable (_ < _))

/-- The dentry's own path, looked up in the namespace without following a final link, leads to
the dentry. -/
def Shown (dentry : δ) : Prop := ∀ w, (ns.view w).kernPath (ns.ownPath dentry) false = .ok dentry

/-- There is one filesystem, which holds what its lookups find: every file found is at its own
path, which fits a buffer; hard links are links to files of one kind; what has something below
it is a directory. -/
structure SingleMount : Prop where
  fits : ∀ w path follow dentry, (ns.view w).kernPath path follow = .ok dentry → ns.Fits dentry
  shown : ∀ w path follow dentry, (ns.view w).kernPath path follow = .ok dentry → ns.Shown dentry
  same_kind : ∀ dentry other, ns.Shown dentry → ns.Shown other →
    (ns.inode dentry).ino = (ns.inode other).ino → ns.isLink dentry → ns.isLink other
  above : ∀ dentry names, ns.Shown dentry → names <+: ns.names dentry → names ≠ ns.names dentry →
    ∃ dir, ns.names dir = names ∧ ns.Shown dir ∧ (ns.inode dir).isDir = true

variable {ns} {w : π} {dentry : δ}

theorem isResolved_ownPath (dentry : δ) : isResolved (ns.ownPath dentry) = true := isResolved_pathOf _

/-- The path of a dentry that does not fit is not printed. -/
theorem dentryPathRaw_of_not_fits (h : ¬ ns.Fits dentry) :
    (ns.view w).dentryPathRaw dentry = .error (-ENAMETOOLONG) := by
  rw [ns.view_dentryPathRaw]
  exact if_neg h

/-- The path of a dentry that fits is printed. -/
theorem dentryPathRaw_of_fits (h : ns.Fits dentry) :
    (ns.view w).dentryPathRaw dentry = .ok (ns.ownPath dentry) := by
  rw [ns.view_dentryPathRaw]
  exact if_pos h

/-- What is printed for a dentry is its path, which fits. -/
theorem fits_of_dentryPathRaw {path : CString} (h : (ns.view w).dentryPathRaw dentry = .ok path) :
    path = ns.ownPath dentry ∧ ns.Fits dentry := by
  rw [ns.view_dentryPathRaw] at h
  split at h
  · rename_i hfits
    rw [Except.ok.injEq] at h
    exact ⟨h.symm, hfits⟩
  · cases h

/-- Printed paths are absolute. -/
theorem view_absolute (w : π) : (ns.view w).Absolute := by
  intro dentry path h
  rw [(fits_of_dentryPathRaw h).1]
  exact isResolved_pathOf _

/-- A shown dentry that is not a link is also found when links are followed. -/
theorem Shown.follow (h : ns.Shown dentry) (hlink : ¬ ns.isLink dentry) (w : π) :
    (ns.view w).kernPath (ns.ownPath dentry) true = .ok dentry :=
  ns.follow_of_not_link w _ dentry (h w) hlink

/-- Distinct shown dentries have distinct places. -/
theorem Shown.eq_of_names {other : δ} (h : ns.Shown dentry) (hother : ns.Shown other) (w : π)
    (hnames : ns.names dentry = ns.names other) : dentry = other := by
  have hfound := h w
  rw [ownPath, hnames] at hfound
  exact Except.ok.inj (hfound.symm.trans (hother w))

/-- Following the links of a path leads to the target's own path. -/
theorem resolve_eq {path : CString} (hfound : (ns.view w).kernPath path true = .ok dentry)
    (hfits : ns.Fits dentry) : (ns.view w).resolve path = some (ns.ownPath dentry) := by
  rw [Vfs.resolve, hfound]
  dsimp only
  rw [dentryPathRaw_of_fits hfits]
  dsimp only
  rw [if_neg (Nat.not_le.mpr hfits)]

/-- A resolved path is the own path of the dentry that following the links leads to. -/
theorem found_of_resolve {path out : CString} (h : (ns.view w).resolve path = some out) :
    ∃ dentry, (ns.view w).kernPath path true = .ok dentry ∧ out = ns.ownPath dentry ∧
      ns.Fits dentry := by
  unfold Vfs.resolve at h
  cases hfound : (ns.view w).kernPath path true with
  | error e =>
    rw [hfound] at h
    cases h
  | ok dentry =>
    rw [hfound] at h
    dsimp only at h
    cases hraw : (ns.view w).dentryPathRaw dentry with
    | error e =>
      rw [hraw] at h
      cases h
    | ok raw =>
      rw [hraw] at h
      dsimp only at h
      split at h
      · cases h
      · obtain ⟨hown, hfits⟩ := fits_of_dentryPathRaw hraw
        rw [Option.some.injEq] at h
        exact ⟨dentry, rfl, h.symm.trans hown, hfits⟩

/-- The inode number found at a path. -/
theorem inoAt_eq {path : CString} (hfound : (ns.view w).kernPath path false = .ok dentry) :
    (ns.view w).inoAt path = (ns.inode dentry).ino := by
  rw [Vfs.inoAt, hfound, ← ns.view_inode w]

/-- An inode number other than the sentinel is that of a file found. -/
theorem found_of_inoAt {path : CString} (h : (ns.view w).inoAt path ≠ REFMON_NO_INO_NO) :
    ∃ dentry, (ns.view w).kernPath path false = .ok dentry := by
  unfold Vfs.inoAt at h
  cases hfound : (ns.view w).kernPath path false with
  | error e =>
    rw [hfound] at h
    exact absurd rfl h
  | ok dentry => exact ⟨dentry, rfl⟩

/-- Absolute paths mean the same from every working directory. -/
theorem inoAt_absolute (v w : π) {path : CString} (h : isResolved path = true) :
    (ns.view v).inoAt path = (ns.view w).inoAt path := by
  rw [Vfs.inoAt, Vfs.inoAt, ns.kernPath_absolute v w path false h, ns.view_inode, ns.view_inode]

/-- The directory test on a path that leads somewhere. -/
theorem dirOrGone_iff {path : CString} (hfound : (ns.view w).kernPath path true = .ok dentry) :
    (ns.view w).DirOrGone path ↔ (ns.inode dentry).isDir = true := by
  rw [Vfs.DirOrGone, hfound, ns.view_inode]

/-- A shown dentry that is not a link is identified by its own path and inode number. -/
theorem Shown.identify (h : ns.Shown dentry) (hlink : ¬ ns.isLink dentry) (hfits : ns.Fits dentry)
    (w : π) :
    (ns.view w).identify dentry = some ⟨ns.ownPath dentry, (ns.inode dentry).ino⟩ := by
  rw [Vfs.identify, dentryPathRaw_of_fits hfits]
  dsimp only
  rw [resolve_eq (h.follow hlink w) hfits, Option.map_some, inoAt_eq (h w)]

end MountNamespace

end Refmon
