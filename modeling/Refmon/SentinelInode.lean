import Refmon.Authorisation
import Refmon.Eligibility

/-!
# The inode number that no entry has

`REFMON_NO_INO_NO` stands for an inode number that is not known. An addition is refused when it would
record this number, so that the search finds an identifier that carries it by its path only; and what
`krp_hook_mkdir` decides, which always searches with it, does not depend on the inode numbers that
the registry holds.
-/

namespace Refmon

open Runs Wp

/-- No entry holds the number `-1`. -/
def NoSentinel (registry : List RegistryEntry) : Prop :=
  ∀ node ∈ registry,
    node.registered.inoNo ≠ UInt64.ofInt (-1) ∧ node.resolved.inoNo ≠ UInt64.ofInt (-1)

/-- The same entries, up to their inode numbers. -/
def SamePaths : List RegistryEntry → List RegistryEntry → Prop :=
  List.Forall₂ fun a b => a.registered.path = b.registered.path ∧ a.resolved.path = b.resolved.path

/-- The module with another registry. -/
def Kernel.withRegistry (registry : List RegistryEntry) (k : Kernel) : Kernel :=
  { k with core := k.core.withRegistry registry }

/-- The conversion of `-1` to `unsigned long`. -/
theorem sentinel_eq : REFMON_NO_INO_NO = UInt64.ofInt (-1) := by decide

section ByPath

variable {δ : Type} (env : Env δ)

/-- The criteria of `is_eligible` without the one on inode numbers. -/
def pathCriteria : ℕ := REFMON_SEARCH_CRIT_ABSOLUTE_PATH ||| REFMON_SEARCH_CRIT_SUBDIR_CHECK

/-- `is_eligible` without the test of inode numbers. -/
def isEligibleByPath (path : CString) : K Bool := do
  let ret ← searchEntry env (some path) REFMON_NO_INO_NO pathCriteria
  pure ret.isSome

/-- The test with which a hook ends, without inode numbers. -/
def verdictByPath (path : CString) : K ℤ := do
  let eligible ← isEligibleByPath env path
  if eligible then pure KRP_TO_TAILHOOK else pure KRP_GO_AHEAD

/-- `krp_hook_mkdir` without inode numbers. -/
def krpHookMkdirByPath (dentry : δ) : K ℤ := do
  match ← absolutePath env dentry
      (REFMON_FSUTILS_RESOLVE_LINKS ||| REFMON_FSUTILS_IGNORE_ABSOLUTE_PATHS) with
  | none => pure KRP_GO_AHEAD
  | some absolutePath => verdictByPath env absolutePath

end ByPath

section Search

variable {δ : Type} (env : Env δ)

/-- An entry without the sentinel is not found by it. -/
theorem matchesFields_sentinel {node : RegistryEntry} (h : node.resolved.inoNo ≠ UInt64.ofInt (-1))
    (path : CString) :
    matchesFields (REFMON_SEARCH_CRIT_ABSOLUTE_PATH ||| REFMON_SEARCH_CRIT_ABSOLUTE_INO |||
        REFMON_SEARCH_CRIT_SUBDIR_CHECK) node path REFMON_NO_INO_NO =
      matchesFields pathCriteria node path REFMON_NO_INO_NO := by
  have hino : (node.resolved.inoNo == REFMON_NO_INO_NO) = false := by
    rw [sentinel_eq]
    exact beq_false_of_ne h
  simp [matchesFields, hino, pathCriteria, hasFlag, REFMON_SEARCH_CRIT_REGISTERED_PATH,
    REFMON_SEARCH_CRIT_REGISTERED_INO, REFMON_SEARCH_CRIT_ABSOLUTE_PATH,
    REFMON_SEARCH_CRIT_ABSOLUTE_INO, REFMON_SEARCH_CRIT_SUBDIR_CHECK]

/-- Among such entries the search with the sentinel is a search by path. -/
theorem searchNodes_sentinel {nodes : List RegistryEntry} (h : NoSentinel nodes) (path : CString) :
    searchNodes env (REFMON_SEARCH_CRIT_ABSOLUTE_PATH ||| REFMON_SEARCH_CRIT_ABSOLUTE_INO |||
        REFMON_SEARCH_CRIT_SUBDIR_CHECK) path REFMON_NO_INO_NO nodes =
      searchNodes env pathCriteria path REFMON_NO_INO_NO nodes := by
  induction nodes with
  | nil => rfl
  | cons node rest ih =>
    have hrest := ih fun other hother => h other (List.mem_cons_of_mem _ hother)
    rw [searchNodes, searchNodes, matchesFields_sentinel (h node List.mem_cons_self).2 path, hrest]
    rfl

/-- A search for a path by its path reads nothing of the module but the registry. -/
theorem searchEntry_run {criteria : ℕ}
    (hcriteria : hasFlag criteria REFMON_SEARCH_CRIT_ABSOLUTE_PATH = true) (path : CString) (inoNo : UInt64)
    (k : Kernel) :
    searchEntry env (some path) inoNo criteria k =
      (if k.core.theInstance.registry.isEmpty ∨ matchString path [] then pure none
      else searchNodes env criteria path inoNo k.core.theInstance.registry) k := by
  have hread : gets (fun core => core.theInstance.registry) k = .ok k.core.theInstance.registry k := rfl
  rw [searchEntry, bind_of_ok hread]
  simp only [hcriteria, true_or, or_true, and_true]
  by_cases hempty : k.core.theInstance.registry.isEmpty = true
  · rw [if_pos hempty, if_pos (Or.inl hempty)]
  · simp [hempty]

/-- So an identifier that carries the sentinel is eligible through its path only. -/
theorem isEligible_sentinel {k : Kernel} (h : NoSentinel k.core.theInstance.registry) (path : CString) :
    isEligible env ⟨path, REFMON_NO_INO_NO⟩ k = isEligibleByPath env path k := by
  have hsearch : searchEntry env (some path) REFMON_NO_INO_NO (REFMON_SEARCH_CRIT_ABSOLUTE_PATH |||
      REFMON_SEARCH_CRIT_ABSOLUTE_INO ||| REFMON_SEARCH_CRIT_SUBDIR_CHECK) k =
        searchEntry env (some path) REFMON_NO_INO_NO pathCriteria k := by
    rw [searchEntry_run env (by decide), searchEntry_run env (by decide), searchNodes_sentinel env h]
  simp only [isEligible, isEligibleByPath, bind, EStateM.bind, hsearch]

/-- What `is_eligible` finds by path among the entries of a registry. -/
def eligibleAmong (path : CString) (registry : List RegistryEntry) : K Bool :=
  if registry.isEmpty ∨ matchString path [] then pure false
  else Option.isSome <$> searchNodes env pathCriteria path REFMON_NO_INO_NO registry

/-- The search by path reads nothing of the module but its registry. -/
theorem isEligibleByPath_run (path : CString) (k : Kernel) :
    isEligibleByPath env path k = eligibleAmong env path k.core.theInstance.registry k := by
  have hcriteria : hasFlag pathCriteria REFMON_SEARCH_CRIT_ABSOLUTE_PATH = true := by decide
  simp only [isEligibleByPath, bind, EStateM.bind, searchEntry_run env hcriteria]
  rw [eligibleAmong]
  by_cases hnone : k.core.theInstance.registry.isEmpty = true ∨ matchString path [] = true
  · rw [if_pos hnone, if_pos hnone]
    rfl
  · rw [if_neg hnone, if_neg hnone]
    rfl

/-- Registries with the same paths are searched alike. -/
theorem searchNodes_samePaths {nodes others : List RegistryEntry} (h : SamePaths nodes others)
    (path : CString) :
    Option.isSome <$> searchNodes env pathCriteria path REFMON_NO_INO_NO nodes =
      Option.isSome <$> searchNodes env pathCriteria path REFMON_NO_INO_NO others := by
  induction h with
  | nil => rfl
  | @cons node other rest others hpaths _ ih =>
    have hfields : matchesFields pathCriteria node path REFMON_NO_INO_NO =
        matchesFields pathCriteria other path REFMON_NO_INO_NO := by
      simp [matchesFields, hpaths.1, hpaths.2, pathCriteria, hasFlag, REFMON_SEARCH_CRIT_REGISTERED_PATH,
        REFMON_SEARCH_CRIT_REGISTERED_INO, REFMON_SEARCH_CRIT_ABSOLUTE_PATH,
        REFMON_SEARCH_CRIT_ABSOLUTE_INO, REFMON_SEARCH_CRIT_SUBDIR_CHECK]
    rw [searchNodes, searchNodes, hfields, hpaths.2]
    split
    · rfl
    · rw [if_pos (by decide), if_pos (by decide), map_bind, map_bind]
      congr 1
      funext dir
      split
      · rfl
      · exact ih

/-- So are whole registries. -/
theorem eligibleAmong_samePaths {registry others : List RegistryEntry} (h : SamePaths registry others)
    (path : CString) : eligibleAmong env path registry = eligibleAmong env path others := by
  have hempty : registry.isEmpty = others.isEmpty := by
    cases h <;> rfl
  rw [eligibleAmong, eligibleAmong, hempty, searchNodes_samePaths env h path]

end Search

section Blind

variable {δ : Type} (env : Env δ) (registry : List RegistryEntry)

/-- A question to the kernel does not see the registry. -/
theorem blind_ask {α : Type} (answer : ℕ → α) : Blind (Kernel.withRegistry registry) (ask answer) :=
  fun _ => rfl

theorem blind_pathPut : Blind (Kernel.withRegistry registry) pathPut := fun _ => rfl

theorem blind_kernPath (path : CString) (follow : Bool) :
    Blind (Kernel.withRegistry registry) (kernPath env path follow) := by
  intro k
  have hclock : (k.withRegistry registry).aux.clock = k.aux.clock := rfl
  simp only [kernPath, hclock]
  cases env.kernPath k.aux.clock path follow with
  | ok dentry => rfl
  | error e => rfl

theorem querying_blind : Querying env fun m => Blind (Kernel.withRegistry registry) m where
  pure := Blind.pure
  bind := Blind.bind
  ask := blind_ask registry
  kernPath := blind_kernPath env registry
  pathPut := blind_pathPut registry

/-- Nor does the naming of a dentry. -/
theorem blind_absolutePath (dentry : δ) (flags : ℕ) :
    Blind (Kernel.withRegistry registry) (absolutePath env dentry flags) :=
  (querying_blind env registry).absolutePath (Blind.throw _) dentry flags

/-- Nor does the search by path, which is given the entries. -/
theorem blind_eligibleAmong (path : CString) (others : List RegistryEntry) :
    Blind (Kernel.withRegistry registry) (eligibleAmong env path others) := by
  apply Blind.ite (Blind.pure _)
  exact ((querying_blind env registry).searchNodes _ _ _ _).map _

end Blind

section Hooks

variable {δ : Type} {env : Env δ} {k : Kernel}

/-- Without the sentinel in the registry, the verdict on it is one by path. -/
theorem verdict_sentinel (h : NoSentinel k.core.theInstance.registry) (path : CString) :
    verdict env ⟨path, REFMON_NO_INO_NO⟩ k = verdictByPath env path k := by
  simp only [verdict, verdictByPath, bind, EStateM.bind, isEligible_sentinel env h]

/-- The verdict by path on a state with other inode numbers is the same. -/
theorem verdictByPath_samePaths {registry : List RegistryEntry}
    (h : SamePaths k.core.theInstance.registry registry) (path : CString) :
    verdictByPath env path (k.withRegistry registry) =
      mapState (Kernel.withRegistry registry) (verdictByPath env path k) := by
  have heligible : isEligibleByPath env path (k.withRegistry registry) =
      mapState (Kernel.withRegistry registry) (isEligibleByPath env path k) := by
    have hother : (k.withRegistry registry).core.theInstance.registry = registry := rfl
    rw [isEligibleByPath_run, isEligibleByPath_run, hother, ← eligibleAmong_samePaths env h]
    exact blind_eligibleAmong env registry path _ k
  simp only [verdictByPath, bind, EStateM.bind, heligible]
  cases isEligibleByPath env path k with
  | ok eligible t => cases eligible <;> rfl
  | error e t => rfl

/-- The directory hook by path does the same on a state with other inode numbers. -/
theorem krpHookMkdirByPath_samePaths {registry : List RegistryEntry}
    (h : SamePaths k.core.theInstance.registry registry) (dentry : δ) :
    krpHookMkdirByPath env dentry (k.withRegistry registry) =
      mapState (Kernel.withRegistry registry) (krpHookMkdirByPath env dentry k) := by
  have hpath := blind_absolutePath env registry dentry
    (REFMON_FSUTILS_RESOLVE_LINKS ||| REFMON_FSUTILS_IGNORE_ABSOLUTE_PATHS) k
  simp only [krpHookMkdirByPath, bind, EStateM.bind, hpath]
  cases hrun : absolutePath env dentry
      (REFMON_FSUTILS_RESOLVE_LINKS ||| REFMON_FSUTILS_IGNORE_ABSOLUTE_PATHS) k with
  | error e t => rfl
  | ok path t =>
    cases path with
    | none => rfl
    | some path =>
      have hsame : t.core = k.core := ((moves_absolutePath dentry _).ok hrun).core
      rw [← hsame] at h
      exact verdictByPath_samePaths h path

/-- Without the sentinel in the registry, the directory hook tests paths only. -/
theorem krpHookMkdir_sentinel (h : NoSentinel k.core.theInstance.registry) (dentry : δ) :
    krpHookMkdir env dentry k = krpHookMkdirByPath env dentry k := by
  simp only [krpHookMkdir, krpHookMkdirByPath, bind, EStateM.bind]
  cases hrun : absolutePath env dentry
      (REFMON_FSUTILS_RESOLVE_LINKS ||| REFMON_FSUTILS_IGNORE_ABSOLUTE_PATHS) k with
  | error e t => rfl
  | ok path t =>
    cases path with
    | none => rfl
    | some path =>
      have hsame : t.core = k.core := ((moves_absolutePath dentry _).ok hrun).core
      rw [← hsame] at h
      exact verdict_sentinel h path

/-- A lookup that fails gives the sentinel. -/
theorem identify_of_lookup_error {dentry : δ} {path : CString} {m : Kernel} {e : ℤ}
    (hpath : absolutePath env dentry REFMON_FSUTILS_RESOLVE_LINKS k = .ok (some path) m)
    (hlookup : env.kernPath m.aux.clock path false = .error e) :
    identify env dentry k = .ok (some ⟨path, REFMON_NO_INO_NO⟩) m.tick := by
  have hfound : kernPath env path false m = .ok (.error e) m.tick := by
    simp only [kernPath, hlookup]
  rw [identify, bind_of_ok hpath]
  simp only [extractInoNoFromPath, bind, EStateM.bind, hfound]
  rfl

end Hooks

/-- Every entry of a reachable registry was added with inode numbers that are known. -/
theorem reachable_noSentinel {δ : Type} {sha256 : List UInt8 → Digest} {k : Kernel}
    (hk : Reachable δ sha256 k) : NoSentinel k.core.theInstance.registry := by
  apply Reach.invariant (I := fun t => NoSentinel t.core.theInstance.registry) hk
  · intro t ht node hnode
    rw [ht.loaded.2.1] at hnode
    cases hnode
  · intro e t _ hnone node hnode
    rcases entry_cases hnode with hbefore | ⟨pathIn, passwordIn, path, -, -, hadded, -⟩
    · exact hnone node hbefore
    · rw [← sentinel_eq]
      exact hadded.found

/-- In every reachable state no entry holds the sentinel. So an identifier that carries it, as in the
directory hook always and in the open hook when the lookup of the inode number fails, is found
eligible through its path only, and the directory hook ends in the same way whatever other inode
numbers the entries hold. -/
theorem sentinel_never_matches {δ : Type} {sha256 : List UInt8 → Digest} {k : Kernel}
    (hk : Reachable δ sha256 k) (env : Env δ) :
    NoSentinel k.core.theInstance.registry ∧
      (∀ path, isEligible env ⟨path, REFMON_NO_INO_NO⟩ k = isEligibleByPath env path k) ∧
      (∀ dentry, krpHookMkdir env dentry k = krpHookMkdirByPath env dentry k) ∧
      (∀ dentry path m e, absolutePath env dentry REFMON_FSUTILS_RESOLVE_LINKS k = .ok (some path) m →
        env.kernPath m.aux.clock path false = .error e →
        identify env dentry k = .ok (some ⟨path, REFMON_NO_INO_NO⟩) m.tick) ∧
      (∀ dentry fFlags path t, identify env dentry k = .ok (some ⟨path, REFMON_NO_INO_NO⟩) t →
        krpHookOpen env dentry fFlags k =
          if isWriteAcc fFlags then verdictByPath env path t else .ok KRP_GO_AHEAD t) ∧
      ∀ dentry registry, SamePaths k.core.theInstance.registry registry → NoSentinel registry →
        returned (krpHookMkdir env dentry (k.withRegistry registry)) =
            returned (krpHookMkdir env dentry k) ∧
          faultOf (krpHookMkdir env dentry (k.withRegistry registry)) =
            faultOf (krpHookMkdir env dentry k) := by
  have hnone := reachable_noSentinel hk
  refine ⟨hnone, isEligible_sentinel env hnone, krpHookMkdir_sentinel hnone, ?_, ?_, ?_⟩
  · intro dentry path m e hpath hlookup
    exact identify_of_lookup_error hpath hlookup
  · intro dentry fFlags path t hid
    have hsame : t.core = k.core := ((moves_identify dentry).ok hid).core
    rw [← hsame] at hnone
    simp only [krpHookOpen, bind, EStateM.bind, hid]
    split
    · exact verdict_sentinel hnone path
    · rfl
  · intro dentry registry hpaths hothers
    have hother : krpHookMkdir env dentry (k.withRegistry registry) =
        krpHookMkdirByPath env dentry (k.withRegistry registry) := krpHookMkdir_sentinel hothers dentry
    rw [hother, krpHookMkdir_sentinel hnone, krpHookMkdirByPath_samePaths hpaths, returned_mapState,
      faultOf_mapState]
    exact ⟨rfl, rfl⟩

/-- The root directory is registered, and cannot be made again or removed whatever inode number its
entry holds. -/
theorem sentinel_never_matches_rootAdded :
    NoSentinel rootAdded.core.theInstance.registry ∧
      returned (krpHookMkdir (rootOnly.calm ciaoSha256) () (rootAdded.withRegistry
        [⟨⟨lit "/", 7⟩, ⟨lit "/", 8⟩⟩])) = some KRP_TO_TAILHOOK := by
  have hreach : Reachable Unit ciaoSha256 rootAdded := reachable_rootOnly.next _ ⟨rfl, trivial⟩
  obtain ⟨hnone, -, -, -, -, hsame⟩ := sentinel_never_matches hreach (rootOnly.calm ciaoSha256)
  refine ⟨hnone, (hsame () _ ?_ ?_).1.trans (by decide +kernel)⟩
  · rw [rootAdded_registry]
    exact .cons ⟨rfl, rfl⟩ .nil
  · intro node hnode
    rw [List.mem_singleton] at hnode
    subst hnode
    exact ⟨by decide, by decide⟩

end Refmon
