import Refmon.Layout
import Refmon.Registrations

/-!
# Mediation of write opens

A registered path protects the object it denotes once links are followed, the other hard links
to it and, when it is a directory, what lies below. Its entry covers less: an absolute path is
recorded as it is spelled, with the inode number of a final link, while the open hook compares
with the own path of the opened file; and no path is below that of the root.
-/

namespace Refmon

open Wp Runs MountNamespace SlashPath

variable {π δ : Type} (ns : MountNamespace π δ)

/-- What a registered path with this target protects. -/
def MountNamespace.Protects (target dentry : δ) : Prop :=
  (ns.inode dentry).ino = (ns.inode target).ino ∨
    (ns.inode target).isDir = true ∧ ns.names target <+: ns.names dentry

/-- What the entry of the path covers of it. The target's inode is recorded unless the path is
absolute and ends in a link; the places below the target match unless it is the root or the
path is an absolute one spelled in another way than the target's own. -/
def MountNamespace.Covers (w : π) (path : CString) (target dentry : δ) : Prop :=
  (ns.inode dentry).ino = (ns.inode target).ino ∧
      (isResolved path = true → (ns.view w).inoAt path = (ns.inode target).ino) ∨
    (ns.inode target).isDir = true ∧ ns.names target <+: ns.names dentry ∧ ns.names target ≠ [] ∧
      (isResolved path = true → path = ns.ownPath target)

variable {ns} {w v : π} {path : CString} {target dentry : δ} {entry : RegistryEntry}

/-- A covered object is protected. -/
theorem MountNamespace.Covers.protects (h : ns.Covers w path target dentry) :
    ns.Protects target dentry := by
  rcases h with ⟨hino, _⟩ | ⟨hdir, hbelow, _⟩
  · exact Or.inl hino
  · exact Or.inr ⟨hdir, hbelow⟩

section Matching

variable (hsingle : ns.SingleMount) (hrecords : Records ns w path entry)
  (htarget : (ns.view w).kernPath path true = .ok target)

include hsingle hrecords htarget

/-- A relative path is recorded as the own path of its target. -/
theorem Records.path_of_relative (hrel : isResolved path = false) :
    entry.resolved.path = ns.ownPath target ∧ entry.resolved.inoNo = (ns.inode target).ino := by
  obtain ⟨other, hother, hown, _⟩ := hrecords.relative hrel
  rw [Except.ok.inj (hother.symm.trans htarget)] at hown
  apply And.intro hown
  rw [hrecords.ino, hown]
  exact inoAt_eq (hsingle.shown w path true target htarget w)

/-- The entry of a path matches what it covers. -/
theorem matches_of_covers (hcovers : ns.Covers w path target dentry) (v : π) :
    (ns.view v).Matches entry ⟨ns.ownPath dentry, (ns.inode dentry).ino⟩ := by
  have hshownT := hsingle.shown w path true target htarget
  have hlinkT := ns.follow_not_link w path target htarget
  rcases hcovers with ⟨hino, habs⟩ | ⟨hdir, hbelow, hroot, habs⟩
  · right
    left
    dsimp only
    rw [hino]
    cases hres : isResolved path with
    | true =>
      rw [hrecords.ino, hrecords.absolute hres]
      exact habs hres
    | false => exact (hrecords.path_of_relative hsingle htarget hres).2
  · right
    right
    have hown : entry.resolved.path = ns.ownPath target := by
      cases hres : isResolved path with
      | true => rw [hrecords.absolute hres, habs hres]
      | false => exact (hrecords.path_of_relative hsingle htarget hres).1
    rw [hown]
    apply And.intro
    · rw [dirOrGone_iff (hshownT.follow hlinkT v)]
      exact hdir
    · rw [ownPath, ownPath, isSubpath_pathOf]
      exact Or.inr ⟨hroot, hbelow⟩

variable (hshown : ns.Shown dentry)
  (hmatches : (ns.view v).Matches entry ⟨ns.ownPath dentry, (ns.inode dentry).ino⟩)

include hshown hmatches

/-- The entry of a relative path matches only what it covers. -/
theorem covers_of_matches_relative (hrel : isResolved path = false) :
    ns.Covers w path target dentry := by
  have hshownT := hsingle.shown w path true target htarget
  have hlinkT := ns.follow_not_link w path target htarget
  obtain ⟨hown, hinoT⟩ := hrecords.path_of_relative hsingle htarget hrel
  have hvacuous {P : Prop} (habs : isResolved path = true) : P := by
    rw [hrel] at habs
    cases habs
  have hsame (hnames : ns.names target = ns.names dentry) : ns.Covers w path target dentry := by
    rw [hshownT.eq_of_names hshown v hnames]
    exact Or.inl ⟨rfl, hvacuous⟩
  rcases hmatches with hpath | hino | ⟨hdir, hsub⟩
  · apply hsame
    apply render_injective
    exact hown.symm.trans hpath
  · left
    apply And.intro _ hvacuous
    exact hino.symm.trans hinoT
  · rw [hown] at hdir hsub
    rw [dirOrGone_iff (hshownT.follow hlinkT v)] at hdir
    rw [ownPath, ownPath, isSubpath_pathOf] at hsub
    rcases hsub with hnames | ⟨hroot, hbelow⟩
    · exact hsame hnames
    · exact Or.inr ⟨hdir, hbelow, hroot, hvacuous⟩

/-- The entry of an absolute path matches only what it covers. -/
theorem covers_of_matches_absolute (hlink : ¬ ns.isLink dentry) (habs : isResolved path = true) :
    ns.Covers w path target dentry := by
  have hown := hrecords.absolute habs
  -- a path that leads to a file that is no link leads to the target
  have hreaches {other : δ} (hother : (ns.view w).kernPath path false = .ok other)
      (hnot : ¬ ns.isLink other) : other = target :=
    Except.ok.inj ((ns.follow_of_not_link w path other hother hnot).symm.trans htarget)
  have hcovers {other : δ} (hother : (ns.view w).kernPath path false = .ok other)
      (hino : (ns.inode other).ino = (ns.inode dentry).ino) : ns.Covers w path target dentry := by
    have hnot : ¬ ns.isLink other := by
      intro hlinkO
      have hshownO := hsingle.shown w path false other hother
      exact hlink (hsingle.same_kind other dentry hshownO hshown hino hlinkO)
    have hsame := hreaches hother hnot
    left
    rw [← hsame]
    exact ⟨hino.symm, fun _ => inoAt_eq hother⟩
  rcases hmatches with hpath | hino | ⟨_, hsub⟩
  · have hother := hshown w
    rw [← show path = ns.ownPath dentry from hown.symm.trans hpath] at hother
    exact hcovers hother rfl
  · have hat : (ns.view w).inoAt path = (ns.inode dentry).ino := by
      rw [← hown, ← hrecords.ino]
      exact hino
    have hne : (ns.view w).inoAt path ≠ REFMON_NO_INO_NO := by
      rw [← hown, ← hrecords.ino]
      exact hrecords.found
    obtain ⟨other, hother⟩ := found_of_inoAt hne
    exact hcovers hother ((inoAt_eq hother).symm.trans hat)
  · rw [hown, isSubpath_iff] at hsub
    obtain ⟨rest, hrest, hboundary⟩ := hsub
    obtain ⟨names, hnames, hpre⟩ := exists_ancestor_of_render_eq hrest hboundary
      (ne_nil_of_isResolved habs)
    by_cases heq : names = ns.names dentry
    · have hother := hshown w
      rw [ownPath, ← heq, show pathOf names = path from hnames.symm] at hother
      exact hcovers hother rfl
    · -- the path is that of a directory above the object, so that directory is the target
      obtain ⟨hroot, hbelow⟩ := hpre.resolve_left heq
      obtain ⟨dir, hplace, hshownD, hisdir⟩ := hsingle.above dentry names hshown hbelow heq
      have hpath : path = ns.ownPath dir := by
        rw [ownPath, hplace]
        exact hnames
      have hother := hshownD w
      rw [← hpath] at hother
      have hsame := hreaches hother (ns.dir_not_link dir hisdir)
      rw [hsame] at hplace hisdir hpath
      right
      rw [hplace]
      exact ⟨hisdir, hbelow, hroot, fun _ => hpath⟩

/-- Of the objects that are not links, the entry of a path matches only those it covers. -/
theorem covers_of_matches (hlink : ¬ ns.isLink dentry) : ns.Covers w path target dentry := by
  cases hres : isResolved path with
  | false => exact covers_of_matches_relative hsingle hrecords htarget hshown hmatches hres
  | true => exact covers_of_matches_absolute hsingle hrecords htarget hshown hmatches hlink hres

end Matching

/-- Opens for writing by their access mode are write accesses. -/
theorem isWriteAcc_of_accmods {fFlags : UInt32}
    (h : getAccmods fFlags = O_WRONLY ∨ getAccmods fFlags = O_RDWR) : isWriteAcc fFlags = true := by
  unfold isWriteAcc
  rcases h with h | h
  · rw [h]
    decide
  · rw [h]
    decide

section LinkedFile

/-- A file `/d/f` and a symbolic link `/l` to it. -/
def linkedFile : Layout where
  files := [(⟨0, []⟩, ⟨2, .dir⟩), (⟨0, [fileName "d"]⟩, ⟨3, .dir⟩),
    (⟨0, [fileName "d", fileName "f"]⟩, ⟨4, .file⟩),
    (⟨0, [fileName "l"]⟩, ⟨5, .symlink (lit "/d/f")⟩)]
  mounts := []

theorem linkedFile_sound : linkedFile.Sound where
  root := by decide +kernel
  above := by decide +kernel
  mounts := by decide +kernel

theorem linkedFile_single : linkedFile.Single where
  mounts := rfl
  fits := by decide +kernel
  ordinary := by decide +kernel
  same_kind := by decide +kernel

/-- The namespace of the file and the link. -/
abbrev linkedFileNs : MountNamespace linkedFile.Cwd Dentry := linkedFile.mountNamespace linkedFile_sound

/-- The dentry of the file. -/
def linkedTarget : Dentry := ⟨0, [fileName "d", fileName "f"]⟩

/-- The module after root has added a path from the root directory. -/
def linkedAdded (path : CString) : Kernel := added linkedFileNs linkedFile_sound.rootDir path

/-- A hook there, with no failed allocation. -/
def linkedEnv : Env Dentry := (linkedFileNs.view linkedFile_sound.rootDir).calm ciaoSha256

theorem linkedFile_loaded :
    returned (initModule ((linkedFileNs.view linkedFile_sound.rootDir).calm ciaoSha256) inserted) =
      some 0 := by
  decide +kernel

theorem linkedTarget_shown : linkedFileNs.Shown linkedTarget :=
  (linkedFile_single.singleMount linkedFile_sound).shown linkedFile_sound.rootDir
    (lit "/d/f") true _ (by decide +kernel)

end LinkedFile

end Refmon
