import Refmon.Authorisation
import Refmon.Library.OrderedMap

/-!
# The registry is a map in insertion order

The key of an entry is its registered path. As long as no allocation fails, the registry of
every reachable state is the list of entries of an `OrderedMap`, and the calls act on it as
insertion, deletion and clearing do.
-/

namespace Refmon

open Wp Runs

variable {δ : Type} {sha256 : List UInt8 → Digest}

/-- The key of a registry entry. -/
def registeredPath (entry : RegistryEntry) : CString := entry.registered.path

/-- The map that a registry represents. -/
abbrev RegistryMap := OrderedMap registeredPath

/-- What a call relies on: allocations succeed, `d_path` gives an absolute directory, and
`kern_path` refuses paths that do not fit `PATH_MAX`. -/
structure Ordinary (env : Env δ) (cwd : CString) : Prop where
  allocates : env.Allocates
  dPath : ∀ n, env.dPath n = .ok cwd
  absolute : isResolved cwd = true
  kernPath : ∀ n path follow dentry, env.kernPath n path follow = .ok dentry → path.length < PATH_MAX

/-- The registry represents a map whose keys fit their buffers. -/
def Represents (map : RegistryMap) (registry : List RegistryEntry) : Prop :=
  map.entries = registry ∧ ∀ key ∈ map.keys, key.length < PATH_MAX

/-- A call that can be authorised: the lock is free, and the password can be copied and
hashed. -/
structure Accepted (env : Env δ) (k : Kernel) (password : UserPtr) : Prop where
  free : k.lock = false
  root : env.euid = GLOBAL_ROOT_UID
  reconf : isReconf k.core.theInstance = true
  hashes : env.Hashes
  password : ∃ supplied, PointsTo password supplied ∧ Copyable env supplied ∧
    k.core.theInstance.PasswordIs (env.sha256 supplied.bytes)

/-- A pointer points to one string. -/
theorem PointsTo.unique {user : UserPtr} {s s' : CString} (h : PointsTo user s)
    (h' : PointsTo user s') : s = s' := by
  obtain ⟨region, rfl, hreads⟩ := h
  obtain ⟨region', hregion, hreads'⟩ := h'
  cases hregion
  obtain ⟨rest, hrest⟩ := hreads 0 le_rfl
  obtain ⟨rest', hrest'⟩ := hreads' 0 le_rfl
  have hread := cstring_mem_append s rest
  rw [← hrest, hrest', cstring_mem_append] at hread
  exact (Option.some.inj hread).symm

/-- The key of a new entry fits its buffer, as its path was looked up or its key was built. -/
theorem Added.key_short {env : Env δ} {registry : List RegistryEntry} {path cwd : CString}
    {entry : RegistryEntry} (h : Added env registry path entry) (henv : Ordinary env cwd) :
    (registeredPath entry).length < PATH_MAX := by
  obtain ⟨hkey, hfits⟩ := h.key cwd henv.dPath
  obtain ⟨n, dentry, hdentry⟩ := h.exists_dentry
  change entry.registered.path.length < PATH_MAX
  rcases hfits.2 with habs | hshort
  · rw [hkey, keyOf, if_pos habs]
    exact henv.kernPath n path false dentry hdentry
  · rw [hkey]
    exact hshort

/-- An addition inserts a new key. -/
theorem Appends.push {env : Env δ} {pathIn : UserPtr} {before after : List RegistryEntry}
    {map : RegistryMap} {cwd : CString} (h : Appends env pathIn before after)
    (henv : Ordinary env cwd) (hmap : Represents map before) :
    ∃ path entry, ∃ hnew : registeredPath entry ∉ map.keys,
      (∀ s, PointsTo pathIn s → path = s) ∧ registeredPath entry = keyOf cwd path ∧
        (map.push entry hnew).entries = after ∧ Represents (map.push entry hnew) after := by
  obtain ⟨path, entry, hpath, hadded, rfl⟩ := h
  have hkey := (hadded.key cwd henv.dPath).1
  have habs : isResolved entry.registered.path = true := by
    rw [hkey]
    exact isResolved_keyOf path henv.absolute
  have hnew : registeredPath entry ∉ map.keys := by
    rw [OrderedMap.keys, hmap.1]
    exact hadded.absent henv.allocates habs
  have hentries : (map.push entry hnew).entries = before ++ [entry] := by
    rw [← hmap.1]
    rfl
  refine ⟨path, entry, hnew, hpath, hkey, hentries, hentries, ?_⟩
  intro key hmem
  rw [OrderedMap.keys_push, List.mem_append, List.mem_singleton] at hmem
  rcases hmem with hold | rfl
  · exact hmap.2 key hold
  · exact hadded.key_short henv

/-- A removal deletes one key. -/
theorem Deletes.delete {env : Env δ} {pathIn : UserPtr} {before after : List RegistryEntry}
    {map : RegistryMap} {cwd : CString} (h : Deletes env pathIn before after)
    (henv : Ordinary env cwd) (hmap : Represents map before) :
    ∃ path, (∀ s, PointsTo pathIn s → path = s) ∧ keyOf cwd path ∈ map.keys ∧
      (map.delete (keyOf cwd path)).entries = after ∧
        Represents (map.delete (keyOf cwd path)) after := by
  obtain ⟨path, found, hpath, hmem, hfinds, rfl⟩ := h
  have hfind := hfinds cwd henv.dPath henv.absolute
  rw [← hmap.1] at hmem hfind
  have hkey : registeredPath found = keyOf cwd path := (OrderedMap.key_of_find hfind).2
  have hafter : (map.delete (keyOf cwd path)).entries = before.erase found := by
    rw [← hkey, ← hmap.1]
    exact (map.erase_eq_delete hmem).symm
  refine ⟨path, hpath, (map.find_isSome_iff _).mp ⟨found, hfind⟩, hafter, hafter, ?_⟩
  intro key hkeep
  exact hmap.2 key ((map.mem_keys_delete _ key).mp hkeep).1

/-- A step leaves the registry representing a map. -/
theorem step_represents (e : Event δ) (k : Kernel) (henv : ∃ cwd, Ordinary e.env cwd)
    (h : ∃ map, Represents map k.core.theInstance.registry) :
    ∃ map, Represents map (step e k).core.theInstance.registry := by
  obtain ⟨cwd, henv⟩ := henv
  obtain ⟨map, hmap⟩ := h
  rcases step_cases e k with hcore | ⟨-, hchanges⟩
  · rw [hcore]
    exact ⟨map, hmap⟩
  obtain ⟨env, call⟩ := e
  cases call with
  | setState newState =>
    rw [(hchanges.setState rfl).2.1]
    exact ⟨map, hmap⟩
  | reconfAdd pathIn passwordIn =>
    obtain ⟨registry, happends, hcore⟩ := Reconfigured.registry hchanges
    obtain ⟨_, _, _, _, _, _, hafter⟩ := happends.push henv hmap
    rw [hcore]
    exact ⟨_, hafter⟩
  | reconfRm pathIn passwordIn =>
    obtain ⟨registry, hdeletes, hcore⟩ := Reconfigured.registry hchanges
    obtain ⟨_, _, _, _, hafter⟩ := hdeletes.delete henv hmap
    rw [hcore]
    exact ⟨_, hafter⟩
  | flushRegistry password =>
    obtain ⟨registry, rfl, hcore⟩ := Reconfigured.registry hchanges
    rw [hcore]
    exact ⟨OrderedMap.empty registeredPath, rfl, fun key h => by cases h⟩

/-- The registry of every state reached by ordinary calls represents a map. -/
theorem reachable_represents {k : Kernel}
    (hk : ReachableBy sha256 (fun (e : Event δ) _ => ∃ cwd, Ordinary e.env cwd) k) :
    ∃ map, Represents map k.core.theInstance.registry := by
  apply Reach.invariant hk
  · intro t ht
    rw [ht.loaded.2.1]
    exact ⟨OrderedMap.empty registeredPath, rfl, fun key h => by cases h⟩
  · intro e t henv ht
    exact step_represents e t henv.2 ht

section Accepted

variable {env : Env δ} {k : Kernel} {cwd path : CString} {map : RegistryMap}

/-- A key that is present can be computed. -/
theorem keyFits_of_mem (hmap : Represents map k.core.theInstance.registry) (hpath : path ≠ [])
    (hmem : keyOf cwd path ∈ map.keys) : KeyFits cwd path :=
  ⟨hpath, Or.inr (hmap.2 _ hmem)⟩

/-- An accepted call gets past its checks. -/
theorem Accepted.wp_guarded {password : UserPtr} (haccepted : Accepted env k password) {body : K ℤ}
    {Q : ℤ → Kernel → Prop} {E : Fault → Kernel → Prop} (hbody : ∀ t, t.core = k.core → wp body Q E t) :
    wp (do
      spinInstanceLock
      let ret ← safetyChecks env reconfChecks password
      if ret ≠ 0 then tail ret else body) Q E k := by
  obtain ⟨supplied, hpoints, hcopied, hpassword⟩ := haccepted.password
  apply wp_guarded_accepts haccepted.free haccepted.root haccepted.reconf hpoints hpassword hcopied
    haccepted.hashes
  intro t ht
  exact hbody t ht.core

/-- An accepted call copies its path. -/
theorem Accepted.wp_guardedPath {pathIn password : UserPtr} (haccepted : Accepted env k password)
    (hpath : PointsTo pathIn path) (hcopy : Copyable env path) {body : CString → K ℤ}
    {Q : ℤ → Kernel → Prop} {E : Fault → Kernel → Prop}
    (hbody : ∀ t, t.core = k.core → wp (body path) Q E t) :
    wp (do
      spinInstanceLock
      let ret ← safetyChecks env reconfChecks password
      if ret ≠ 0 then tail ret
      else do
        match ← sanitizeUserInputAlloc env pathIn with
        | none => tail (-EINVAL)
        | some buffer => do
          let safePath ← readBuffer buffer
          body safePath) Q E k := by
  apply haccepted.wp_guarded
  intro t ht
  apply wp_copyPath_accepts hpath hcopy
  intro u hu
  exact hbody u (hu.core.trans ht)

/-- An accepted addition of a path whose key is present returns `-EEXIST`. -/
theorem doReconfAdd_present {pathIn passwordIn : UserPtr} (haccepted : Accepted env k passwordIn)
    (henv : Ordinary env cwd) (hmap : Represents map k.core.theInstance.registry)
    (hpath : PointsTo pathIn path) (hcopy : Copyable env path) (hmem : keyOf cwd path ∈ map.keys) :
    ∃ t, doReconfAdd env pathIn passwordIn k = .ok (-EEXIST) t := by
  have hrun : wp (doReconfAdd env pathIn passwordIn) (fun ret _ => ret = -EEXIST) (fun _ _ => False) k := by
    apply haccepted.wp_guardedPath hpath hcopy
    intro t hcore
    rw [wp_bind]
    apply wp_mono (wp_addFile path) _ fun _ _ hF => hF
    intro ret u ⟨_, hrefuses, _⟩
    have hret : ret = -EEXIST := by
      apply hrefuses cwd henv.dPath henv.absolute henv.allocates (keyFits_of_mem hmap hcopy.nonempty hmem)
      rw [hcore, ← hmap.1]
      exact hmem
    rw [hret, if_pos (by decide)]
    rfl
  obtain ⟨ret, t, hok, rfl⟩ := wp_returns hrun
  exact ⟨t, hok⟩

/-- An accepted removal deletes the key of its path, or returns `-ENOENT` when it is absent. -/
theorem doReconfRm_accepted {pathIn passwordIn : UserPtr} (haccepted : Accepted env k passwordIn)
    (henv : Ordinary env cwd) (hmap : Represents map k.core.theInstance.registry)
    (hpath : PointsTo pathIn path) (hcopy : Copyable env path) :
    ∃ ret t, doReconfRm env pathIn passwordIn k = .ok ret t ∧
      (ret = 0 ∧ keyOf cwd path ∈ map.keys ∧
          t.core.theInstance.registry = (map.delete (keyOf cwd path)).entries ∨
        ret = -ENOENT ∧ keyOf cwd path ∉ map.keys ∧ t.core.theInstance.registry = map.entries) := by
  apply wp_returns
  apply haccepted.wp_guardedPath hpath hcopy
  intro t hcore
  rw [← bind_assoc, wp_bind]
  apply wp_mono (wp_findKey path) _ fun _ _ hF => hF
  intro found u ⟨hfound, hmem, hu⟩
  rw [hcore, ← hmap.1] at hfound hmem
  have hfind := hfound cwd ⟨henv.dPath, henv.absolute⟩
  have hucore : u.core = k.core := hu.core.trans hcore
  cases found with
  | none =>
    refine Or.inr ⟨rfl, fun hpresent => ?_, by rw [hmap.1, ← hucore]⟩
    obtain ⟨entry, hentry⟩ := (map.find_isSome_iff _).mpr hpresent
    rcases hfind with hnone | ⟨-, hno⟩
    · exact absurd (hnone.trans hentry) (by simp)
    · exact hno ⟨henv.allocates, keyFits_of_mem hmap hcopy.nonempty hpresent⟩
  | some entry =>
    have hsome := (hfind.resolve_right (by simp)).symm
    have hkey : registeredPath entry = keyOf cwd path := (OrderedMap.key_of_find hsome).2
    refine Or.inl ⟨rfl, (map.find_isSome_iff _).mp ⟨entry, hsome⟩, ?_⟩
    rw [← hkey, ← map.erase_eq_delete (hmem entry rfl), hmap.1, ← hucore]

/-- An accepted flush leaves the empty registry. -/
theorem doFlushRegistry_accepted {password : UserPtr} (haccepted : Accepted env k password) :
    ∃ t, doFlushRegistry env password k = .ok 0 t ∧ t.core.theInstance.registry = [] := by
  have hrun : wp (doFlushRegistry env password)
      (fun ret t => ret = 0 ∧ t.core.theInstance.registry = []) (fun _ _ => False) k := by
    apply haccepted.wp_guarded
    intro t _
    rw [wp_bind, wp_gets]
    split
    · rename_i hempty
      exact ⟨rfl, List.isEmpty_iff.mp hempty⟩
    · exact ⟨rfl, foldl_erase_self _⟩
  obtain ⟨ret, t, hok, rfl, hempty⟩ := wp_returns hrun
  exact ⟨t, hok, hempty⟩

end Accepted

/-- What each call does to the registry, read as the map that it represents. -/
def Event.ActsOnMap (e : Event δ) (k : Kernel) (cwd : CString) (map : RegistryMap) : Prop :=
  match e.call with
  | .setState _ => (step e k).core.theInstance.registry = map.entries
  | .reconfAdd pathIn passwordIn => ∀ path, PointsTo pathIn path →
      (∀ t, e.result k = .ok 0 t → ∃ entry, ∃ hnew : registeredPath entry ∉ map.keys,
        registeredPath entry = keyOf cwd path ∧
          t.core.theInstance.registry = (map.push entry hnew).entries) ∧
      (Accepted e.env k passwordIn → Copyable e.env path → keyOf cwd path ∈ map.keys →
        ∃ t, e.result k = .ok (-EEXIST) t)
  | .reconfRm pathIn passwordIn => ∀ path, PointsTo pathIn path → Accepted e.env k passwordIn →
      Copyable e.env path → ∃ ret t, e.result k = .ok ret t ∧
        (ret = 0 ∧ keyOf cwd path ∈ map.keys ∧
            t.core.theInstance.registry = (map.delete (keyOf cwd path)).entries ∨
          ret = -ENOENT ∧ keyOf cwd path ∉ map.keys ∧ t.core.theInstance.registry = map.entries)
  | .flushRegistry password => Accepted e.env k password →
      ∃ t, e.result k = .ok 0 t ∧ t.core.theInstance.registry = []

/-- In every state reached by ordinary calls, the registry is a map in insertion order: its keys
are distinct, calls that do not return zero leave it alone, and the others act as insertion at
the tail, deletion and clearing. -/
theorem registry_refines_map {k : Kernel}
    (hk : ReachableBy sha256 (fun (e : Event δ) _ => ∃ cwd, Ordinary e.env cwd) k) :
    (keys k.core.theInstance.registry).Nodup ∧
      ∃ map : RegistryMap, map.entries = k.core.theInstance.registry ∧
        ∀ (e : Event δ) (cwd : CString), Ordinary e.env cwd →
          ((∀ t, e.result k ≠ .ok 0 t) → (step e k).core.theInstance.registry = map.entries) ∧
            e.ActsOnMap k cwd map := by
  obtain ⟨map, hmap⟩ := reachable_represents hk
  have hnodup : (keys k.core.theInstance.registry).Nodup := by
    rw [← hmap.1]
    exact map.nodup
  refine ⟨hnodup, map, hmap.1, fun e cwd henv => ⟨fun herror => ?_, ?_⟩⟩
  · rcases step_cases e k with hcore | ⟨hzero, -⟩
    · rw [hcore, hmap.1]
    · exact absurd hzero (herror _)
  obtain ⟨env, call⟩ := e
  cases call with
  | setState newState =>
    rcases step_cases ⟨env, .setState newState⟩ k with hcore | ⟨-, hchanges⟩
    · exact (congrArg (fun core => core.theInstance.registry) hcore).trans hmap.1.symm
    · exact (hchanges.setState rfl).2.1.trans hmap.1.symm
  | reconfAdd pathIn passwordIn =>
    intro path hpath
    constructor
    · intro t hzero
      obtain ⟨registry, happends, hcore⟩ := Reconfigured.registry (changes_of_result hzero)
      obtain ⟨path', entry, hnew, hpath', hkey, hentries, -⟩ := happends.push henv hmap
      refine ⟨entry, hnew, ?_, ?_⟩
      · rw [hkey, hpath' path hpath]
      · rw [hcore, hentries]
        rfl
    · intro haccepted hcopy hmem
      exact doReconfAdd_present haccepted henv hmap hpath hcopy hmem
  | reconfRm pathIn passwordIn =>
    intro path hpath haccepted hcopy
    exact doReconfRm_accepted haccepted henv hmap hpath hcopy
  | flushRegistry password =>
    intro haccepted
    exact doFlushRegistry_accepted haccepted

/-- Where nothing fails, root is authorised with the default password, if the state allows it. -/
theorem calm_accepted (fs : Vfs δ) {k : Kernel} (hk : Reachable δ ciaoSha256 k) (hfree : k.lock = false)
    (hreconf : isReconf k.core.theInstance = true) :
    Accepted (fs.calm ciaoSha256) k (userString REFMON_DEFAULT_PASSWORD) where
  free := hfree
  root := rfl
  reconf := hreconf
  hashes _ := rfl
  password := ⟨REFMON_DEFAULT_PASSWORD, userString_pointsTo _, ⟨fun _ => rfl, by decide, by decide⟩,
    hk.password⟩

section EmptyPath

/-- The calls of root where only the root directory exists are ordinary. -/
theorem rootOnly_ordinary : Ordinary (rootOnly.calm ciaoSha256) (lit "/") where
  allocates _ := rfl
  dPath _ := rfl
  absolute := rfl
  kernPath n path follow dentry h := by
    simp only [Vfs.calm, rootOnly] at h
    split at h
    · rename_i hpath
      exact hpath.2.2
    · cases h

/-- The module in the state `REC-ON` with the path `//` registered. -/
def doubleSlash : Kernel := step (rootAdd rootOnly (lit "//")) (bootedRecOn rootOnly)

theorem doubleSlash_reachable :
    ReachableBy ciaoSha256 (fun (e : Event Unit) _ => ∃ cwd, Ordinary e.env cwd) doubleSlash :=
  ((Reach.start booted_rootOnly).next _ ⟨rfl, _, rootOnly_ordinary⟩).next _ ⟨rfl, _, rootOnly_ordinary⟩

/-- Root can be authorised there. -/
theorem doubleSlash_accepted :
    Accepted (rootOnly.calm ciaoSha256) doubleSlash (userString REFMON_DEFAULT_PASSWORD) :=
  calm_accepted rootOnly doubleSlash_reachable.reachable (by decide +kernel) (by decide +kernel)

/-- From the root directory, the empty path has the key of the path `//`. Where that path is
registered, an authorised addition of the empty path does not return `-EEXIST`, nor does its
removal return zero: both are refused before the key is looked up. -/
theorem empty_path_refused :
    ReachableBy ciaoSha256 (fun (e : Event Unit) _ => ∃ cwd, Ordinary e.env cwd) doubleSlash ∧
      Accepted (rootOnly.calm ciaoSha256) doubleSlash (userString REFMON_DEFAULT_PASSWORD) ∧
      keyOf (lit "/") [] ∈ keys doubleSlash.core.theInstance.registry ∧
      returned ((rootAdd rootOnly []).result doubleSlash) = some (-EINVAL) ∧
      returned ((rootRm rootOnly []).result doubleSlash) = some (-EINVAL) :=
  ⟨doubleSlash_reachable, doubleSlash_accepted, by decide +kernel, by decide +kernel, by decide +kernel⟩

/-- The refinement at the registry that holds `//`: its removal returns zero and empties it. -/
theorem registry_refines_map_doubleSlash :
    (keys doubleSlash.core.theInstance.registry).Nodup ∧
      ∃ map : RegistryMap, map.entries = doubleSlash.core.theInstance.registry ∧
        (rootRm rootOnly (lit "//")).ActsOnMap doubleSlash (lit "/") map := by
  obtain ⟨hnodup, map, hmap, hacts⟩ := registry_refines_map doubleSlash_reachable
  exact ⟨hnodup, map, hmap, (hacts (rootRm rootOnly (lit "//")) _ rootOnly_ordinary).2⟩

end EmptyPath

end Refmon
