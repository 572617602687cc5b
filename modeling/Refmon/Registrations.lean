import Refmon.Calls
import Refmon.MountNamespace

/-!
# Registered paths

`Registered ns w path entry k`: in the run that led to `k` a process in the directory `w` added
`path`, the call returned zero and appended `entry`, and `entry` is still in the registry. What
the entry records of the namespace is fixed at that moment and holds ever after.
-/

namespace Refmon

open Wp Runs MountNamespace

variable {π δ : Type} (ns : MountNamespace π δ) (sha256 : List UInt8 → Digest)

/-- The call adds `path` from the directory `w`. -/
def Event.Adds (e : Event δ) (w : π) (path : CString) : Prop :=
  e.env.Sees (ns.view w) ∧
    ∃ pathIn passwordIn, e.call = .reconfAdd pathIn passwordIn ∧ PointsTo pathIn path

/-- The state that a successful addition of `path` leaves, with its entry at the tail. -/
def JustAdded (w : π) (path : CString) (entry : RegistryEntry) (t : Kernel) : Prop :=
  ∃ (k : Kernel) (e : Event δ), Reachable δ sha256 k ∧ e.env.sha256 = sha256 ∧ e.Adds ns w path ∧
    e.result k = .ok 0 t ∧ t.core.theInstance.registry = k.core.theInstance.registry ++ [entry]

/-- The path was added and its entry is still there. -/
structure Registered (w : π) (path : CString) (entry : RegistryEntry) (k : Kernel) : Prop where
  added : Reach step (JustAdded ns sha256 w path entry) (fun (e : Event δ) _ => e.env.sha256 = sha256) k
  present : entry ∈ k.core.theInstance.registry

/-- What an entry records of the namespace in which its path was added. -/
structure Records (w : π) (path : CString) (entry : RegistryEntry) : Prop where
  path : (ns.view w).entryPath path = some entry.resolved.path
  ino : entry.resolved.inoNo = (ns.view w).inoAt entry.resolved.path
  found : entry.resolved.inoNo ≠ REFMON_NO_INO_NO

variable {ns sha256} {w : π} {path : CString} {entry : RegistryEntry} {k : Kernel}

/-- The entry appended by an addition records the namespace at that moment. -/
theorem JustAdded.records (h : JustAdded ns sha256 w path entry k) : Records ns w path entry := by
  obtain ⟨before, e, _, _, ⟨hsees, pathIn, passwordIn, hcall, hpoints⟩, hresult, happended⟩ := h
  have hchanges := changes_of_result hresult
  rw [Event.Changes, hcall] at hchanges
  obtain ⟨registry, ⟨copied, new, hcopied, hadded, hnew⟩, hcore⟩ := hchanges.registry
  have hentry : new = entry := by
    rw [hcore, hnew] at happended
    have h := List.append_cancel_left happended
    rw [List.cons.injEq] at h
    exact h.1
  rw [hcopied path hpoints, hentry] at hadded
  obtain ⟨hpath, _, hino⟩ := hadded.resolved (ns.view w) hsees
  exact ⟨hpath, hino, hadded.found.2⟩

/-- A registered entry still records what it recorded when it was made. -/
theorem Registered.records (h : Registered ns sha256 w path entry k) : Records ns w path entry :=
  h.added.invariant (fun _ hadded => hadded.records) fun _ _ _ hrecords => hrecords

/-- An absolute path is recorded as it is. -/
theorem Records.absolute (h : Records ns w path entry) (habs : isResolved path = true) :
    entry.resolved.path = path := by
  have hpath := h.path
  rw [Vfs.entryPath, if_pos habs, Option.some.injEq] at hpath
  exact hpath.symm

/-- A relative path is recorded as the own path of the file that following its links leads to. -/
theorem Records.relative (h : Records ns w path entry) (hrel : isResolved path = false) :
    ∃ target, (ns.view w).kernPath path true = .ok target ∧
      entry.resolved.path = ns.ownPath target ∧ ns.Fits target := by
  have hpath := h.path
  rw [Vfs.entryPath, if_neg (by simp [hrel])] at hpath
  exact found_of_resolve hpath

/-- Recorded paths are absolute. -/
theorem Records.path_absolute (h : Records ns w path entry) : isResolved entry.resolved.path = true := by
  cases habs : isResolved path with
  | true =>
    rw [h.absolute habs]
    exact habs
  | false =>
    obtain ⟨target, _, hown, _⟩ := h.relative habs
    rw [hown]
    exact isResolved_pathOf _

/-- The recorded inode number is found at the recorded path from every directory. -/
theorem Records.inoAt (h : Records ns w path entry) (v : π) :
    (ns.view v).inoAt entry.resolved.path = entry.resolved.inoNo := by
  rw [inoAt_absolute v w h.path_absolute, h.ino]

/-- A later call leaves a registered path registered as long as its entry is there. -/
theorem Registered.step (h : Registered ns sha256 w path entry k) {e : Event δ}
    (hsha : e.env.sha256 = sha256) (hpresent : entry ∈ (step e k).core.theInstance.registry) :
    Registered ns sha256 w path entry (step e k) :=
  ⟨h.added.next e hsha, hpresent⟩

section Sample

/-- After a load, root has added a path in the directory `w` and nothing else was done. -/
def added (ns : MountNamespace π δ) (w : π) (path : CString) : Kernel :=
  step (rootAdd (ns.view w) path) (bootedRecOn (ns.view w))

/-- An addition that returns zero registers its path. -/
theorem registered_of_added
    (hload : returned (initModule ((ns.view w).calm ciaoSha256) inserted) = some 0)
    (hbefore : (bootedRecOn (ns.view w)).core.theInstance.registry = [])
    (hadd : returned ((rootAdd (ns.view w) path).result (bootedRecOn (ns.view w))) = some 0)
    (hafter : (added ns w path).core.theInstance.registry = [entry]) :
    Registered ns ciaoSha256 w path entry (added ns w path) := by
  have hreach : Reachable δ ciaoSha256 (bootedRecOn (ns.view w)) :=
    (Reach.start (booted_of_returned hload)).next _ ⟨rfl, trivial⟩
  constructor
  · apply Reach.start
    refine ⟨_, rootAdd (ns.view w) path, hreach, rfl, ⟨Vfs.calm_sees _ _, ?_⟩, returned_eq_some hadd, ?_⟩
    · exact ⟨_, _, rfl, userString_pointsTo path⟩
    · rw [hbefore]
      exact hafter
  · rw [hafter]
    exact List.mem_singleton_self entry

end Sample

end Refmon
