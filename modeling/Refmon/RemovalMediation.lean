import Refmon.Layout
import Refmon.Registrations

/-!
# Mediation of removals and new directories

A directory whose entry holds its own path protects the places below. The removal hook judges
the object that the victim's path leads to once links are followed, so a link is judged by its
target, and one that leads nowhere not at all; the directory hook judges the path itself. No
path is below that of the root.
-/

namespace Refmon

open Wp Runs MountNamespace SlashPath

variable {π δ : Type} (ns : MountNamespace π δ)

/-- Following the last link of the victim's path leads to a file that is at or below the
directory, or has its inode number. The root is above nothing here. -/
def MountNamespace.ReachesBelow (dir victim : δ) : Prop :=
  ∃ w object, (ns.view w).kernPath (ns.ownPath victim) true = .ok object ∧
    (ns.inode object).ino ≠ REFMON_NO_INO_NO ∧
    ((ns.inode object).ino = (ns.inode dir).ino ∨
      ns.names dir ≠ [] ∧ ns.names dir <+: ns.names object)

variable {ns} {w v : π} {path : CString} {dir : δ} {entry : RegistryEntry}

/-- The entry of a directory's own path matches the directory's inode number and, unless the
directory is the root, the places below. -/
theorem matches_dir_iff (hrecords : Records ns w path entry) (hshown : ns.Shown dir)
    (hisdir : (ns.inode dir).isDir = true) (hown : entry.resolved.path = ns.ownPath dir)
    (names : List FileName) (ino : UInt64) :
    (ns.view v).Matches entry ⟨pathOf names, ino⟩ ↔
      ns.names dir = names ∨ (ns.inode dir).ino = ino ∨
        ns.names dir ≠ [] ∧ ns.names dir <+: names := by
  have hino : entry.resolved.inoNo = (ns.inode dir).ino := by
    rw [hrecords.ino, hown]
    exact inoAt_eq (hshown w)
  have hgone : (ns.view v).DirOrGone (ns.ownPath dir) := by
    rw [dirOrGone_iff (hshown.follow (ns.dir_not_link dir hisdir) v)]
    exact hisdir
  rw [Vfs.Matches, hown, hino, ownPath, isSubpath_pathOf, render_injective.eq_iff]
  dsimp only
  constructor
  · intro h
    rcases h with hnames | hsame | ⟨_, hnames | hbelow⟩
    · exact Or.inl hnames
    · exact Or.inr (Or.inl hsame)
    · exact Or.inl hnames
    · exact Or.inr (Or.inr hbelow)
  · intro h
    rcases h with hnames | hsame | hbelow
    · exact Or.inl hnames
    · exact Or.inr (Or.inl hsame)
    · exact Or.inr (Or.inr ⟨hgone, Or.inr hbelow⟩)

/-- The identifier of a victim is that of the object that its path leads to. -/
theorem identify_victim (hsingle : ns.SingleMount) {victim : δ} (hvictim : ns.Shown victim)
    {id : PathIdentifier} :
    (ns.view v).identify victim = some id ↔
      ∃ object, (ns.view v).kernPath (ns.ownPath victim) true = .ok object ∧
        id = ⟨ns.ownPath object, (ns.inode object).ino⟩ := by
  rw [Vfs.identify, dentryPathRaw_of_fits (hsingle.fits v _ false victim (hvictim v))]
  dsimp only
  rw [Option.map_eq_some_iff]
  constructor
  · rintro ⟨out, hout, hid⟩
    obtain ⟨object, hfound, hown, _⟩ := found_of_resolve hout
    refine ⟨object, hfound, ?_⟩
    rw [← hid, hown, inoAt_eq (hsingle.shown v _ true object hfound v)]
  · rintro ⟨object, hfound, hid⟩
    refine ⟨ns.ownPath object, resolve_eq hfound (hsingle.fits v _ true object hfound), ?_⟩
    rw [hid, inoAt_eq (hsingle.shown v _ true object hfound v)]

/-- The condition on a victim may be read in any working directory. -/
theorem reachesBelow_iff (v : π) {victim : δ} :
    ns.ReachesBelow dir victim ↔
      ∃ object, (ns.view v).kernPath (ns.ownPath victim) true = .ok object ∧
        (ns.inode object).ino ≠ REFMON_NO_INO_NO ∧
        ((ns.inode object).ino = (ns.inode dir).ino ∨
          ns.names dir ≠ [] ∧ ns.names dir <+: ns.names object) := by
  have habs : isResolved (ns.ownPath victim) = true := isResolved_pathOf _
  constructor
  · intro ⟨w, object, hfound, h⟩
    rw [ns.kernPath_absolute w v _ true habs] at hfound
    exact ⟨object, hfound, h⟩
  · intro ⟨object, hfound, h⟩
    exact ⟨v, object, hfound, h⟩

section Hooks

variable {sha256 : List UInt8 → Digest} {k : Kernel} {env : Env δ}
  (hregistered : Registered ns sha256 w path entry k) (hshown : ns.Shown dir)
  (hisdir : (ns.inode dir).isDir = true) (hown : entry.resolved.path = ns.ownPath dir)
  (hsees : env.Sees (ns.view v))

include hregistered hshown hisdir hown hsees

/-- The removal hook denies the victims that lead to or below the directory. -/
theorem rm_denied_iff_reachesBelow (hsingle : ns.SingleMount) {victim : δ}
    (hvictim : ns.Shown victim) :
    (env.Allocates → ns.ReachesBelow dir victim →
        returned (krpHookRm env victim k) = some KRP_TO_TAILHOOK) ∧
      (k.core.theInstance.registry = [entry] →
        returned (krpHookRm env victim k) = some KRP_TO_TAILHOOK → ns.ReachesBelow dir victim) := by
  have hfits := hsingle.fits v _ false victim (hvictim v)
  obtain ⟨hcomplete, hsound⟩ := returned_iff_of_decides
    (wp_krpHookRm (k := k) hsees (view_absolute v) (dentryPathRaw_of_fits hfits))
  constructor
  · intro halloc hreaches
    obtain ⟨object, hfound, hino, hbelow⟩ := (reachesBelow_iff v).mp hreaches
    apply hcomplete halloc
    refine ⟨_, (identify_victim hsingle hvictim).mpr ⟨object, hfound, rfl⟩, hino, entry,
      hregistered.present, ?_⟩
    rw [ownPath, matches_dir_iff hregistered.records hshown hisdir hown]
    exact Or.inr (hbelow.imp_left Eq.symm)
  · intro honly htail
    obtain ⟨id, hid, hino, node, hnode, hmatches⟩ := hsound htail
    obtain ⟨object, hfound, hobject⟩ := (identify_victim hsingle hvictim).mp hid
    rw [honly, List.mem_singleton] at hnode
    rw [hobject] at hino
    rw [hobject, hnode, ownPath, matches_dir_iff hregistered.records hshown hisdir hown] at hmatches
    rw [reachesBelow_iff v]
    refine ⟨object, hfound, hino, ?_⟩
    rcases hmatches with hnames | hsame | hbelow
    · rw [hshown.eq_of_names (hsingle.shown v _ true object hfound) v hnames]
      exact Or.inl rfl
    · exact Or.inl hsame.symm
    · exact Or.inr hbelow

/-- The directory hook denies new directories below the directory unless that is the root. -/
theorem mkdir_denied_iff_not_root {new : δ} (hfits : ns.Fits new)
    (hbelow : ns.names dir <+: ns.names new) (hne : ns.names dir ≠ ns.names new) :
    (env.Allocates → ns.names dir ≠ [] →
        returned (krpHookMkdir env new k) = some KRP_TO_TAILHOOK) ∧
      (k.core.theInstance.registry = [entry] →
        returned (krpHookMkdir env new k) = some KRP_TO_TAILHOOK → ns.names dir ≠ []) := by
  obtain ⟨hcomplete, hsound⟩ := returned_iff_of_decides
    (wp_krpHookMkdir (k := k) hsees (view_absolute v) (dentryPathRaw_of_fits hfits))
  constructor
  · intro halloc hroot
    apply hcomplete halloc
    refine ⟨_, dentryPathRaw_of_fits hfits, entry, hregistered.present, ?_⟩
    rw [ownPath, matches_dir_iff hregistered.records hshown hisdir hown]
    exact Or.inr (Or.inr ⟨hroot, hbelow⟩)
  · intro honly htail
    obtain ⟨path, hpath, node, hnode, hmatches⟩ := hsound htail
    rw [(fits_of_dentryPathRaw hpath).1] at hmatches
    rw [honly, List.mem_singleton] at hnode
    rw [hnode, ownPath, matches_dir_iff hregistered.records hshown hisdir hown] at hmatches
    rcases hmatches with hnames | hino | ⟨hroot, _⟩
    · exact (hne hnames).elim
    · refine (hregistered.records.found ?_).elim
      rw [hregistered.records.ino, hown, inoAt_eq (hshown w)]
      exact hino
    · exact hroot

end Hooks

section LinksInside

/-- A directory `/d` that holds a file, a link to a file outside and a link to nothing. -/
def linksInside : Layout where
  files := [(⟨0, []⟩, ⟨2, .dir⟩), (⟨0, [fileName "o"]⟩, ⟨3, .file⟩),
    (⟨0, [fileName "d"]⟩, ⟨4, .dir⟩), (⟨0, [fileName "d", fileName "f"]⟩, ⟨5, .file⟩),
    (⟨0, [fileName "d", fileName "s"]⟩, ⟨6, .symlink (lit "/o")⟩),
    (⟨0, [fileName "d", fileName "x"]⟩, ⟨7, .symlink (lit "/nothing")⟩)]
  mounts := []

theorem linksInside_sound : linksInside.Sound where
  root := by decide +kernel
  above := by decide +kernel
  mounts := by decide +kernel

theorem linksInside_single : linksInside.Single where
  mounts := rfl
  fits := by decide +kernel
  ordinary := by decide +kernel
  same_kind := by decide +kernel

/-- The namespace of the directory and its links. -/
abbrev linksInsideNs : MountNamespace linksInside.Cwd Dentry :=
  linksInside.mountNamespace linksInside_sound

/-- The module after root has added the directory. -/
def linksInsideAdded : Kernel := added linksInsideNs linksInside_sound.rootDir (lit "/d")

/-- A hook there, with no failed allocation. -/
def linksInsideEnv : Env Dentry := (linksInsideNs.view linksInside_sound.rootDir).calm ciaoSha256

/-- A dentry in the directory. -/
def insideD (name : FileName) : Dentry := ⟨0, [fileName "d", name]⟩

theorem linksInside_registered :
    Registered linksInsideNs ciaoSha256 linksInside_sound.rootDir (lit "/d")
      ⟨⟨lit "/d", 4⟩, ⟨lit "/d", 4⟩⟩ linksInsideAdded :=
  registered_of_added (by decide +kernel) (by decide +kernel) (by decide +kernel) (by decide +kernel)

theorem linksInside_shown (path : CString) {dentry : Dentry}
    (h : linksInside.lookup linksInside_sound.rootDir path false = .ok dentry) :
    linksInsideNs.Shown dentry :=
  (linksInside_single.singleMount linksInside_sound).shown linksInside_sound.rootDir path false _ h

end LinksInside

end Refmon
