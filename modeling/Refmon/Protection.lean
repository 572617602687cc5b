import Refmon.Enforcement
import Refmon.OpenMediation

/-!
# From a registration to a denial

On one mounted filesystem, a path was added and its entry is still there. What the entry covers cannot
be opened for writing or removed, and no directory can be made or removed below it, until somebody who
may do so makes a call: however many processes try, whatever they call meanwhile, and whenever the
deferred works run.
-/

namespace Refmon

open MountNamespace Runs

variable {π δ : Type} {ns : MountNamespace π δ} {w v : π} {path : CString} {target : δ} {entry : RegistryEntry}
  {sha256 : List UInt8 → Digest} {k : Kernel}

/-- The accesses that a registered path with this target guards against. -/
def MountNamespace.Guards (ns : MountNamespace π δ) (w : π) (path : CString) (target : δ) : Target δ → Prop
  | .vfsOpen dentry fFlags =>
    ns.Shown dentry ∧ ¬ ns.isLink dentry ∧ isWriteAcc fFlags = true ∧ ns.Covers w path target dentry
  | .mayDelete victim =>
    ∃ object, (ns.view w).kernPath (ns.ownPath victim) true = .ok object ∧
      (ns.inode object).ino ≠ REFMON_NO_INO_NO ∧ ns.Covers w path target object
  | .securityPathMkdir dentry | .securityPathRmdir dentry =>
    (ns.inode target).isDir = true ∧ ns.names target <+: ns.names dentry ∧ ns.names target ≠ [] ∧
      (isResolved path = true → path = ns.ownPath target)

section Denies

variable (hsingle : ns.SingleMount) (hrecords : Records ns w path entry)
  (htarget : (ns.view w).kernPath path true = .ok target)

include hsingle hrecords htarget

/-- The entry of a directory matches every place below it, whether something is there or not. -/
theorem matches_below {dentry : δ} (hdir : (ns.inode target).isDir = true)
    (hbelow : ns.names target <+: ns.names dentry) (hroot : ns.names target ≠ [])
    (hspelled : isResolved path = true → path = ns.ownPath target) (ino : UInt64) (v : π) :
    (ns.view v).Matches entry ⟨ns.ownPath dentry, ino⟩ := by
  have hown : entry.resolved.path = ns.ownPath target := by
    cases hres : isResolved path with
    | true => rw [hrecords.absolute hres, hspelled hres]
    | false => exact (hrecords.path_of_relative hsingle htarget hres).1
  have hshown := hsingle.shown w path true target htarget
  have hlink := ns.follow_not_link w path target htarget
  refine .inr (.inr ⟨?_, ?_⟩)
  · rw [hown, dirOrGone_iff (hshown.follow hlink v)]
    exact hdir
  · rw [hown, ownPath, ownPath, isSubpath_pathOf]
    exact .inr ⟨hroot, hbelow⟩

/-- While its entry is there, the hooks deny what a registered path guards against. -/
theorem denies_of_guards {registry : List RegistryEntry} (hpresent : entry ∈ registry) {access : Target δ}
    (hguards : ns.Guards w path target access) (v : π)
    (hpath : ∃ path, (ns.view v).dentryPathRaw access.dentry = .ok path) :
    (ns.view v).Denies registry access := by
  obtain ⟨own, hraw⟩ := hpath
  obtain ⟨rfl, hfits⟩ := fits_of_dentryPathRaw hraw
  cases access with
  | vfsOpen dentry fFlags =>
    obtain ⟨hshown, hlink, hwrite, hcovers⟩ := hguards
    exact ⟨_, hshown.identify hlink hfits v, hwrite, entry, hpresent,
      matches_of_covers hsingle hrecords htarget hcovers v⟩
  | mayDelete victim =>
    obtain ⟨object, hfound, hino, hcovers⟩ := hguards
    rw [ns.kernPath_absolute w v _ true (isResolved_ownPath victim)] at hfound
    have hid : (ns.view v).identify victim = some ⟨ns.ownPath object, (ns.inode object).ino⟩ := by
      rw [Vfs.identify, show (ns.view v).dentryPathRaw victim = _ from hraw]
      change ((ns.view v).resolve (ns.ownPath victim)).map _ = _
      rw [resolve_eq hfound (hsingle.fits v _ true object hfound), Option.map_some,
        inoAt_eq (hsingle.shown v _ true object hfound v)]
    exact ⟨_, hid, hino, entry, hpresent, matches_of_covers hsingle hrecords htarget hcovers v⟩
  | securityPathMkdir dentry =>
    obtain ⟨hdir, hbelow, hroot, hspelled⟩ := hguards
    exact ⟨_, hraw, entry, hpresent,
      matches_below hsingle hrecords htarget hdir hbelow hroot hspelled _ v⟩
  | securityPathRmdir dentry =>
    obtain ⟨hdir, hbelow, hroot, hspelled⟩ := hguards
    exact ⟨_, hraw, entry, hpresent,
      matches_below hsingle hrecords htarget hdir hbelow hroot hspelled _ v⟩

end Denies

variable {κ : Type} [DecidableEq κ] {accesses : κ → Access δ} {s : Mediation κ} {access : κ}

section LinkedFile

/-- The directory `/d` is registered by a relative path, and the state is `ON`. -/
def guardedOn : Kernel :=
  step (rootSetState (linkedFileNs.view linkedFile_sound.rootDir) REFMON_STATE_STRING_ON)
    (linkedAdded (lit "d"))

/-- The file `/d/f` is opened for writing. -/
def opensGuarded (_ : Unit) : Access Dentry :=
  ⟨.vfsOpen linkedTarget O_WRONLY, ⟨linkedTarget, 100, 100, 1000⟩, linkedEnv, linkedEnv,
    vfsOpenRegs linkedTarget O_WRONLY (.int 0) 0⟩

/-- Somebody who is not root asks for the state `OFF`. -/
def strangerSetsOff : Event Dentry :=
  ⟨{ linkedEnv with euid := 1000 }, .setState (userString REFMON_STATE_STRING_OFF)⟩

theorem guardedOn_registered :
    Registered linkedFileNs ciaoSha256 linkedFile_sound.rootDir (lit "d")
      ⟨⟨lit "//d", 3⟩, ⟨lit "/d", 3⟩⟩ guardedOn := by
  have hadded : Registered linkedFileNs ciaoSha256 linkedFile_sound.rootDir (lit "d")
      ⟨⟨lit "//d", 3⟩, ⟨lit "/d", 3⟩⟩ (linkedAdded (lit "d")) :=
    registered_of_added linkedFile_loaded (by decide +kernel) (by decide +kernel) (by decide +kernel)
  exact hadded.step rfl (by decide +kernel)

end LinkedFile

end Refmon
