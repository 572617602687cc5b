import Refmon.OpenMediation
import Refmon.RegistryMap

/-!
# Two spellings of one path

A file is registered under a key: an absolute path is its own key, and a relative one is put behind
the printed working directory and a separator. The key of a relative path is therefore the absolute
path of the same names, except in the root directory, which is printed as a separator already.
-/

namespace Refmon

open Wp Runs SlashPath

variable {δ : Type}

/-- An authorised request about a path, from a working directory. -/
structure Requests (env : Env δ) (k : Kernel) (cwd path : CString) (pathIn passwordIn : UserPtr) :
    Prop where
  ordinary : Ordinary env cwd
  accepted : Accepted env k passwordIn
  points : PointsTo pathIn path
  copyable : Copyable env path

/-- An authorised request adds the path. -/
def AddsAs (δ : Type) (cwd path : CString) (k t : Kernel) : Prop :=
  ∃ (env : Env δ) (pathIn passwordIn : UserPtr), Requests env k cwd path pathIn passwordIn ∧
    doReconfAdd env pathIn passwordIn k = .ok 0 t

/-- Authorised requests find the path registered: they cannot add it, and removing it brings the
registry back to what it was before. -/
def GoesBy (δ : Type) (cwd path : CString) (before : List RegistryEntry) (t : Kernel) : Prop :=
  ∀ (env : Env δ) (pathIn passwordIn : UserPtr), Requests env t cwd path pathIn passwordIn →
    (∃ u, doReconfAdd env pathIn passwordIn t = .ok (-EEXIST) u) ∧
      ∃ u, doReconfRm env pathIn passwordIn t = .ok 0 u ∧ u.core.theInstance.registry = before

/-- The same caller can make a request from another directory, after an addition. -/
theorem Requests.elsewhere {env : Env δ} {k t : Kernel} {cwd path : CString}
    {pathIn passwordIn : UserPtr} (h : Requests env k cwd path pathIn passwordIn)
    {registry : List RegistryEntry} (hlock : t.lock = false)
    (hcore : t.core = k.core.withRegistry registry) {cwd' path' : CString}
    (habs : isResolved cwd' = true) (hne : path' ≠ []) (hshort : path'.length < INT_MAX) :
    Requests { env with dPath := fun _ => .ok cwd' } t cwd' path' (userString path') passwordIn := by
  obtain ⟨supplied, hpoints, hcopied, hpassword⟩ := h.accepted.password
  constructor
  · exact ⟨h.ordinary.allocates, fun _ => rfl, habs, h.ordinary.kernPath⟩
  · constructor
    · exact hlock
    · exact h.accepted.root
    · rw [hcore]
      exact h.accepted.reconf
    · exact h.accepted.hashes
    · refine ⟨supplied, hpoints, ⟨hcopied.allocates, hcopied.nonempty, hcopied.short⟩, ?_⟩
      rw [hcore]
      exact hpassword
  · exact userString_pointsTo path'
  · exact ⟨h.ordinary.allocates, hne, hshort⟩

/-- After an addition, a path finds the new entry exactly when it has the same key. -/
theorem goesBy_iff {k t : Kernel} {map : RegistryMap} (hmap : Represents map k.core.theInstance.registry)
    {cwd path cwd' path' : CString} (hadds : AddsAs δ cwd path k t) (habs : isResolved cwd' = true)
    (hne : path' ≠ []) (hshort : path'.length < INT_MAX) :
    GoesBy δ cwd' path' k.core.theInstance.registry t ↔ keyOf cwd' path' = keyOf cwd path := by
  obtain ⟨env, pathIn, passwordIn, hrequests, hrun⟩ := hadds
  obtain ⟨⟨hlock, -⟩, hsettled⟩ := wp_ok (wp_doReconfAdd pathIn passwordIn) hrun
  rcases hsettled with ⟨hzero, -⟩ | ⟨-, hchange⟩
  · exact absurd rfl hzero
  obtain ⟨registry, happends, hcore⟩ := hchange.registry
  obtain ⟨copied, entry, hnew, hcopied, hkey, hentries, hafter⟩ :=
    happends.push hrequests.ordinary hmap
  rw [hcopied path hrequests.points] at hkey
  have hregistry : t.core.theInstance.registry = registry := by
    rw [hcore]
    rfl
  rw [← hregistry] at hafter
  constructor
  · intro hgoes
    have helsewhere := hrequests.elsewhere hlock hcore habs hne hshort
    obtain ⟨u, hremoved, hback⟩ := (hgoes _ _ _ helsewhere).2
    obtain ⟨ret, u', hrm, hcases⟩ := doReconfRm_accepted helsewhere.accepted helsewhere.ordinary hafter
      helsewhere.points helsewhere.copyable
    rw [hremoved] at hrm
    cases hrm
    rcases hcases with ⟨-, -, hdeleted⟩ | ⟨hret, -⟩
    · rw [hback, ← hmap.1] at hdeleted
      rw [OrderedMap.eq_of_delete_push hdeleted.symm, hkey]
    · exact absurd hret (by decide)
  · intro hsame env' pathIn' passwordIn' hrequests'
    have hmem : keyOf cwd' path' ∈ (map.push entry hnew).keys := by
      rw [hsame, ← hkey, OrderedMap.keys_push]
      exact List.mem_append_right _ List.mem_cons_self
    constructor
    · exact doReconfAdd_present hrequests'.accepted hrequests'.ordinary hafter hrequests'.points
        hrequests'.copyable hmem
    · obtain ⟨ret, u, hrm, hcases⟩ := doReconfRm_accepted hrequests'.accepted hrequests'.ordinary hafter
        hrequests'.points hrequests'.copyable
      rcases hcases with ⟨hret, -, hdeleted⟩ | ⟨-, habsent, -⟩
      · rw [hret] at hrm
        refine ⟨u, hrm, ?_⟩
        rw [hdeleted, hsame, ← hkey, OrderedMap.delete_push, hmap.1]
      · exact absurd hmem habsent

/-- The key of a path that was added fits its buffer. -/
theorem AddsAs.key_short {k t : Kernel} {map : RegistryMap}
    (hmap : Represents map k.core.theInstance.registry) {cwd path : CString}
    (hadds : AddsAs δ cwd path k t) : (keyOf cwd path).length < PATH_MAX := by
  obtain ⟨env, pathIn, passwordIn, hrequests, hrun⟩ := hadds
  rcases (wp_ok (wp_doReconfAdd pathIn passwordIn) hrun).2 with ⟨hzero, -⟩ | ⟨-, hchange⟩
  · exact absurd rfl hzero
  obtain ⟨registry, happends, -⟩ := hchange.registry
  obtain ⟨copied, entry, hnew, hcopied, hkey, -, hafter⟩ := happends.push hrequests.ordinary hmap
  rw [hcopied path hrequests.points] at hkey
  rw [← hkey]
  apply hafter.2
  rw [OrderedMap.keys_push]
  exact List.mem_append_right _ List.mem_cons_self

section Names

variable {cwd names : List FileName}

/-- The key of a relative path is built behind the printed working directory. -/
theorem keyOf_relative (cwd names : List FileName) :
    keyOf (pathOf cwd) (relative names) = pathOf cwd ++ slash :: relative names := by
  apply if_neg
  unfold isResolved
  rw [beq_iff_eq]
  exact head?_relative names

/-- It is the absolute path of the same names, except in the root directory. -/
theorem keyOf_relative_iff (hnames : names ≠ []) :
    keyOf (pathOf cwd) (relative names) = pathOf (cwd ++ names) ↔ cwd ≠ [] := by
  rw [keyOf_relative]
  exact render_append_relative_iff hnames

/-- The absolute path of the names is not longer than that key, and longer than the relative
path. -/
theorem pathOf_append_length (cwd : List FileName) (hnames : names ≠ []) :
    (pathOf (cwd ++ names)).length ≤ (keyOf (pathOf cwd) (relative names)).length ∧
      (relative names).length < (pathOf (cwd ++ names)).length := by
  have hrelative := congrArg List.length (cons_relative hnames)
  rw [List.length_cons] at hrelative
  have habsolute : pathOf (cwd ++ names) = join cwd ++ join names := by
    rw [pathOf, render_of_ne_nil (by simp [hnames]), join_append]
  rw [keyOf_relative, habsolute, cons_relative hnames, List.length_append, List.length_append]
  by_cases hcwd : cwd = []
  · rw [hcwd, join_nil, List.length_nil]
    omega
  · rw [pathOf, render_of_ne_nil hcwd]
    omega

end Names

variable {sha256 : List UInt8 → Digest}

section LinkedDirectory

/-- A call by root from a directory whose path fits its buffer is ordinary. -/
theorem calm_ordinary {l : Layout} (cwd : l.Cwd) (hfits : (pathOf cwd.val).length < PATH_MAX) :
    Ordinary ((l.view cwd).calm ciaoSha256) (pathOf cwd.val) where
  allocates _ := rfl
  dPath _ := if_pos hfits
  absolute := isResolved_pathOf _
  kernPath n path follow dentry h := by
    change l.lookup cwd path follow = .ok dentry at h
    unfold Layout.lookup at h
    split at h
    · cases h
    · split at h
      · cases h
      · omega

/-- What processes in the root directory see of the file `/d/f`. -/
abbrev fromRoot : Vfs Dentry := linkedFile.view linkedFile_sound.rootDir

/-- The directory `/d`. -/
def insideDir : linkedFile.Cwd := ⟨[fileName "d"], Layout.node_of_isDir (by decide +kernel)⟩

variable (w : linkedFile.Cwd)

/-- Where the module loads, it can be brought to the state `REC-ON`. -/
theorem linkedRecOn_reachable (hfits : (pathOf w.val).length < PATH_MAX)
    (hload : returned (initModule ((linkedFile.view w).calm ciaoSha256) inserted) = some 0) :
    ReachableBy ciaoSha256 (fun (e : Event Dentry) _ => ∃ cwd, Ordinary e.env cwd)
      (bootedRecOn (linkedFile.view w)) :=
  (Reach.start (booted_of_returned hload)).next _ ⟨rfl, _, calm_ordinary w hfits⟩

/-- There root adds a path from the directory. -/
theorem linked_addsAs {path : CString} (hfits : (pathOf w.val).length < PATH_MAX)
    (hload : returned (initModule ((linkedFile.view w).calm ciaoSha256) inserted) = some 0)
    (hfree : (bootedRecOn (linkedFile.view w)).lock = false)
    (hreconf : isReconf (bootedRecOn (linkedFile.view w)).core.theInstance = true)
    (hpath : path ≠ [] ∧ path.length < INT_MAX)
    (hadd : returned ((rootAdd (linkedFile.view w) path).result (bootedRecOn (linkedFile.view w))) =
      some 0) :
    AddsAs Dentry (pathOf w.val) path (bootedRecOn (linkedFile.view w))
      (step (rootAdd (linkedFile.view w) path) (bootedRecOn (linkedFile.view w))) := by
  refine ⟨(linkedFile.view w).calm ciaoSha256, userString path, userString REFMON_DEFAULT_PASSWORD,
    ?_, returned_eq_some hadd⟩
  constructor
  · exact calm_ordinary w hfits
  · exact calm_accepted _ (linkedRecOn_reachable w hfits hload).reachable hfree hreconf
  · exact userString_pointsTo path
  · exact ⟨fun _ => rfl, hpath.1, hpath.2⟩

/-- The state after the directory `/d` is added from the root directory. -/
def rootAddedD : Kernel := step (rootAdd fromRoot (lit "d")) (bootedRecOn fromRoot)

end LinkedDirectory

end Refmon
