import Refmon.Layout
import Refmon.Registrations

/-!
# What a dentry's path denotes

The open hook and the log name a dentry by its path within its own filesystem and look that path
up in the whole namespace. This leads back to the dentry exactly when the namespace shows the
dentry at that path, so not for a file of another mounted filesystem, nor for one that a mount
hides.
-/

namespace Refmon

open Wp MountNamespace

variable {π δ : Type} (ns : MountNamespace π δ)

/-- Two dentries of one file: the same inode on the same device. -/
def MountNamespace.SameFile (dentry other : δ) : Prop :=
  ns.device dentry = ns.device other ∧ (ns.inode dentry).ino = (ns.inode other).ino

/-- The inode number with which the open hook reaches its eligibility check is read from the
opened file. -/
def MountNamespace.OpenFaithful (v : π) (env : Env δ) (k : Kernel) (dentry : δ) : Prop :=
  ∀ id, returned (identify env dentry k) = some (some id) →
    ∃ other, (ns.view v).kernPath id.path false = .ok other ∧ id.inoNo = (ns.inode other).ino ∧
      ns.SameFile other dentry

/-- The program path that the log stores leads to the running program. -/
def MountNamespace.LogFaithful (v : π) (env : Env δ) (k : Kernel) (current : Task δ) : Prop :=
  ∀ ret data, returned (logHandler env current k) = some (ret, some data) →
    ∃ other, (ns.view v).kernPath data.progPath true = .ok other ∧
      ns.SameFile other current.exeFile

variable {ns} {v : π} {env : Env δ} {k : Kernel}

/-- The work that `log_handler` schedules carries the program's path, and with memory it
schedules some. -/
theorem wp_logHandler {fs : Vfs δ} (hsees : env.Sees fs) {current : Task δ} {path : CString}
    (hraw : fs.dentryPathRaw current.exeFile = .ok path) :
    wp (logHandler env current)
      (fun out t => ((∀ data, out.2 = some data → data.progPath = path) ∧
        (env.Allocates → out = (0, some ⟨current.tgid, current.tid, current.uid, env.euid, path⟩))) ∧
        Same k t)
      (fun _ _ => False) k := by
  have hfailed {t : Kernel} (ret : ℤ) (ht : Same k t) (hfail : ¬ env.Allocates) :
      ((∀ data, ((ret, none) : ℤ × Option LogDataset).2 = some data → data.progPath = path) ∧
        (env.Allocates → ((ret, none) : ℤ × Option LogDataset) =
          (0, some ⟨current.tgid, current.tid, current.uid, env.euid, path⟩))) ∧ Same k t := by
    refine ⟨⟨?_, fun halloc => absurd halloc hfail⟩, ht⟩
    intro data hdata
    cases hdata
  rw [logHandler]
  apply wp_ask_else
  · intro t ht hfail
    exact hfailed _ ht hfail
  intro t₁ k₁
  rw [wp_bind]
  apply wp_mono (wp_extractPathFromDentry hsees hraw) _ fun _ _ hF => hF
  intro out t₂ ⟨hout, h₂⟩
  have k₂ := Same.trans _ _ _ k₁ h₂
  cases out with
  | none => exact hfailed _ k₂ (hout.resolve_left (by simp)).2
  | some out =>
    have heq : out = path := Option.some.inj (hout.resolve_right (by simp))
    subst heq
    apply wp_ask_else
    · intro t ht hfail
      exact hfailed _ (Same.trans _ _ _ k₂ ht) hfail
    intro t₃ h₃
    have k₃ := Same.trans _ _ _ k₂ h₃
    apply wp_ask_else
    · intro t ht hfail
      exact hfailed _ (Same.trans _ _ _ k₃ ht) hfail
    intro t₄ h₄
    refine ⟨⟨?_, fun _ => rfl⟩, Same.trans _ _ _ k₃ h₄⟩
    intro data hdata
    rw [← Option.some.inj hdata]

variable {current : Task δ}

/-- A shown file is identified faithfully, whether it is opened or run. -/
theorem faithful_of_shown (hsees : env.Sees (ns.view v)) (hfits : ns.Fits current.exeFile)
    (hlink : ¬ ns.isLink current.exeFile) (hshown : ns.Shown current.exeFile) :
    ns.OpenFaithful v env k current.exeFile ∧ ns.LogFaithful v env k current := by
  have hraw : (ns.view v).dentryPathRaw current.exeFile = .ok (ns.ownPath current.exeFile) :=
    dentryPathRaw_of_fits hfits
  constructor
  · intro id hid
    obtain ⟨out, t, hrun, hout, _⟩ := wp_returns (wp_identify (k := k) hsees (view_absolute v) hraw)
    rw [hrun, returned, Option.some.injEq] at hid
    rw [hid, hshown.identify hlink hfits v] at hout
    have heq := Option.some.inj (hout.resolve_right (by simp))
    rw [heq]
    exact ⟨_, hshown v, rfl, rfl, rfl⟩
  · intro ret data hdata
    obtain ⟨out, t, hrun, ⟨hpath, _⟩, _⟩ := wp_returns (wp_logHandler (k := k) hsees hraw)
    rw [hrun, returned, Option.some.injEq] at hdata
    rw [hpath data (by rw [hdata])]
    exact ⟨_, hshown.follow hlink v, rfl, rfl⟩

/-- With memory, a file that is identified faithfully both when opened and when run, and that
has no other link, is shown. -/
theorem shown_of_faithful (hsees : env.Sees (ns.view v)) (hfits : ns.Fits current.exeFile)
    (halloc : env.Allocates) (hsingle : ∀ other, ns.SameFile other current.exeFile →
      other = current.exeFile)
    (hopen : ns.OpenFaithful v env k current.exeFile) (hlog : ns.LogFaithful v env k current) :
    ns.Shown current.exeFile := by
  have hraw : (ns.view v).dentryPathRaw current.exeFile = .ok (ns.ownPath current.exeFile) :=
    dentryPathRaw_of_fits hfits
  have hfollow : (ns.view v).kernPath (ns.ownPath current.exeFile) true = .ok current.exeFile := by
    obtain ⟨out, t, hrun, ⟨_, hout⟩, _⟩ := wp_returns (wp_logHandler (k := k) hsees hraw)
    have hdata : returned (logHandler env current k) = some out := by rw [hrun, returned]
    rw [hout halloc] at hdata
    obtain ⟨other, hfound, hsame⟩ := hlog _ _ hdata
    rw [hsingle other hsame] at hfound
    exact hfound
  have hid : (ns.view v).identify current.exeFile =
      some ⟨ns.ownPath current.exeFile, (ns.view v).inoAt (ns.ownPath current.exeFile)⟩ := by
    rw [Vfs.identify, hraw]
    dsimp only
    rw [resolve_eq hfollow hfits, Option.map_some]
  obtain ⟨out, t, hrun, hout, _⟩ := wp_returns (wp_identify (k := k) hsees (view_absolute v) hraw)
  have hreturned : returned (identify env current.exeFile k) = some out := by rw [hrun, returned]
  rw [hout.resolve_right fun h => h.2 halloc, hid] at hreturned
  obtain ⟨other, hfound, _, hsame⟩ := hopen _ hreturned
  rw [hsingle other hsame] at hfound
  intro w
  rw [ns.kernPath_absolute w v _ false (isResolved_ownPath _)]
  exact hfound

/-- Nothing is identified by a path that does not fit a buffer. -/
theorem faithful_of_not_fits (hsees : env.Sees (ns.view v)) (hfits : ¬ ns.Fits current.exeFile) :
    ns.OpenFaithful v env k current.exeFile ∧ ns.LogFaithful v env k current := by
  have hraw : (ns.view v).dentryPathRaw current.exeFile = .error (-ENAMETOOLONG) :=
    dentryPathRaw_of_not_fits hfits
  constructor
  · intro id hid
    have hnone := wp_ok (wp_identify_error (k := k) hsees hraw) (returned_eq_some hid)
    cases hnone.1
  · intro ret data hdata
    have hnone : wp (logHandler env current) (fun out _ => out.2 = none) (fun _ _ => True) k := by
      rw [logHandler]
      apply wp_ask_else
      · intro t _ _
        exact rfl
      intro t _
      rw [wp_bind]
      apply wp_mono (wp_extractPathFromDentry_error hsees hraw) _ fun _ _ _ => trivial
      intro out u ⟨hout, _⟩
      rw [hout]
      exact rfl
    have h := wp_ok hnone (returned_eq_some hdata)
    cases h

section TwoMounts

/-- A second filesystem on `/mnt`; each holds a file `a`, and the second a file `b` with the inode
number of the first one's `a`. -/
def twoMounts : Layout where
  files := [(⟨0, []⟩, ⟨2, .dir⟩), (⟨0, [fileName "mnt"]⟩, ⟨3, .dir⟩),
    (⟨0, [fileName "a"]⟩, ⟨7, .file⟩), (⟨1, []⟩, ⟨2, .dir⟩), (⟨1, [fileName "a"]⟩, ⟨9, .file⟩),
    (⟨1, [fileName "b"]⟩, ⟨7, .file⟩)]
  mounts := [(⟨0, [fileName "mnt"]⟩, 1)]

theorem twoMounts_sound : twoMounts.Sound where
  root := by decide +kernel
  above := by decide +kernel
  mounts := by decide +kernel

/-- The namespace of the two filesystems. -/
abbrev twoMountsNs : MountNamespace twoMounts.Cwd Dentry := twoMounts.mountNamespace twoMounts_sound

/-- What a process at the root sees of it. -/
abbrev twoMountsView : Vfs Dentry := twoMountsNs.view twoMounts_sound.rootDir

/-- The files `/a` and `/mnt/a`. -/
def rootA : Dentry := ⟨0, [fileName "a"]⟩

def mountedA : Dentry := ⟨1, [fileName "a"]⟩

/-- A program run by root. -/
def runs (exeFile : Dentry) : Task Dentry := ⟨exeFile, 100, 100, 0⟩

theorem rootA_shown : twoMountsNs.Shown rootA := by
  intro w
  rw [twoMountsNs.kernPath_absolute w twoMounts_sound.rootDir _ false (isResolved_ownPath rootA)]
  decide +kernel

end TwoMounts

end Refmon
