import Refmon.HandlerSpecs

/-!
# The four calls, from entry to return

Whatever a call is given, it either returns an error and leaves the module's lasting state
alone, or makes the one change it is named after. A call that faults changes nothing.
-/

namespace Refmon

open Wp

variable {δ : Type} {env : Env δ} {k : Kernel}

section Paths

variable {user : UserPtr} {body : CString → K ℤ} {Q : ℤ → Kernel → Prop}
  {E : Fault → Kernel → Prop}

/-- The copy of the path argument: refused, faulting, or the string behind the pointer. -/
theorem wp_copyPath (hrefused : ∀ t, Same k t → Q (-EINVAL) t.unlocked)
    (hfault : ∀ fault t, Same k t → E fault t)
    (hbody : ∀ path t, Same k t → (∀ s, PointsTo user s → path = s) → wp (body path) Q E t) :
    wp (do
      match ← sanitizeUserInputAlloc env user with
      | none => tail (-EINVAL)
      | some buffer => do
        let safePath ← readBuffer buffer
        body safePath) Q E k := by
  rw [wp_bind]
  apply wp_mono (wp_forall (moves_sanitizeUserInputAlloc env user k)
    fun s (hs : PointsTo user s) => wp_of_returns (wp_sanitizeUserInputAlloc env (hs.from _))) _
    hfault
  intro out t ⟨hout, ht⟩
  cases out with
  | none => exact hrefused t ht
  | some buffer =>
    dsimp only
    rw [wp_bind, readBuffer]
    cases hread : cstring buffer with
    | none => exact hfault _ t ht
    | some path =>
      apply hbody path t ht
      intro s hs
      rcases (hout s hs).1 with ⟨hnone, -⟩ | ⟨copy, hcopy, hsome⟩
      · cases hnone
      · cases hcopy
        rcases hsome with ⟨heq, -⟩ | ⟨heq, -⟩
        · exact Option.some.inj (hread.symm.trans heq)
        · rw [heq] at hread
          cases hread

/-- A path that can be copied is copied. -/
theorem wp_copyPath_accepts {s : CString} (hs : PointsTo user s) (hcopy : Copyable env s)
    (hbody : ∀ t, Same k t → wp (body s) Q E t) :
    wp (do
      match ← sanitizeUserInputAlloc env user with
      | none => tail (-EINVAL)
      | some buffer => do
        let safePath ← readBuffer buffer
        body safePath) Q E k := by
  rw [wp_bind]
  apply wp_mono (wp_sanitizeUserInputAlloc env (hs.from _)) _ fun _ _ hF => hF.elim
  intro out t ⟨hout, ht⟩
  rcases hout with ⟨-, hno⟩ | ⟨buffer, rfl, ⟨hread, -⟩ | ⟨-, hno⟩⟩
  · exact (hno hcopy).elim
  · dsimp only
    rw [wp_bind, readBuffer, hread]
    exact hbody t ht
  · exact (hno hcopy).elim

end Paths

/-- The change that a reconfiguration call makes when it returns zero. -/
structure Reconfigured (env : Env δ) (password : UserPtr) (k t : Kernel)
    (change : List RegistryEntry → Prop) : Prop where
  root : env.euid = GLOBAL_ROOT_UID
  reconf : isReconf k.core.theInstance = true
  authorised : password.Stable → Authorised env k password
  registry : ∃ registry, change registry ∧ t.core = k.core.withRegistry registry

/-- The registry after an addition: one more entry, at the tail. -/
def Appends (env : Env δ) (pathIn : UserPtr) (before after : List RegistryEntry) : Prop :=
  ∃ path entry, (∀ s, PointsTo pathIn s → path = s) ∧ Added env before path entry ∧
    after = before ++ [entry]

/-- The entry that a search for the key of a path finds. -/
def FindsKey (env : Env δ) (registry : List RegistryEntry) (path : CString)
    (found : RegistryEntry) : Prop :=
  ∀ cwd, (∀ n, env.dPath n = .ok cwd) → isResolved cwd = true →
    registry.find? (fun e => e.registered.path = keyOf cwd path) = some found

/-- The registry after a removal: without the entry found. -/
def Deletes (env : Env δ) (pathIn : UserPtr) (before after : List RegistryEntry) : Prop :=
  ∃ path found, (∀ s, PointsTo pathIn s → path = s) ∧ found ∈ before ∧
    FindsKey env before path found ∧ after = before.erase found

/-- How a call that began at `k` ends: with an error and no lasting effect, or with zero and its
change. Either way it has released the lock once. -/
def Settles (k : Kernel) (change : Kernel → Prop) (ret : ℤ) (t : Kernel) : Prop :=
  Released k t ∧ (ret ≠ 0 ∧ t.core = k.core ∨ ret = 0 ∧ change t)

/-- Giving up before anything lasting was changed settles a call. -/
theorem settles_error {change : Kernel → Prop} {ret : ℤ} {t : Kernel} (hret : ret ≠ 0)
    (h : Same k.locked t) : Settles k change ret t.unlocked :=
  ⟨released_of_unlocks h.unlocks, Or.inl ⟨hret, h.core⟩⟩

section Reconfiguring

variable {password : UserPtr} {change : List RegistryEntry → Prop}

/-- A reconfiguration call settles with its change when what follows the shared beginning does. -/
theorem wp_reconfigures {body : K ℤ}
    (hbody : ∀ t, Same k.locked t →
      (∀ u registry, change registry → u.core = k.core.withRegistry registry →
        Reconfigured env password k u change) →
      wp body (Settles k fun u => Reconfigured env password k u change)
        (fun _ u => u.core = k.core) t) :
    wp (do
      spinInstanceLock
      let ret ← safetyChecks env reconfChecks password
      if ret ≠ 0 then tail ret else body)
      (Settles k fun u => Reconfigured env password k u change) (fun _ u => u.core = k.core) k := by
  apply wp_guarded
  · intro _
    rfl
  · intro _ _ t ht
    exact ht.core
  · intro ret t hret ht
    exact settles_error hret ht
  · intro t ht hroot hreconf hauth
    apply hbody t ht
    intro u registry hchange hu
    exact ⟨hroot, hreconf, hauth, registry, hchange, hu⟩

/-- The same for a call that copies a path next. -/
theorem wp_reconfiguresPath {pathIn : UserPtr} {body : CString → K ℤ}
    (hbody : ∀ path t, Same k.locked t → (∀ s, PointsTo pathIn s → path = s) →
      (∀ u registry, change registry → u.core = k.core.withRegistry registry →
        Reconfigured env password k u change) →
      wp (body path) (Settles k fun u => Reconfigured env password k u change)
        (fun _ u => u.core = k.core) t) :
    wp (do
      spinInstanceLock
      let ret ← safetyChecks env reconfChecks password
      if ret ≠ 0 then tail ret
      else do
        match ← sanitizeUserInputAlloc env pathIn with
        | none => tail (-EINVAL)
        | some buffer => do
          let safePath ← readBuffer buffer
          body safePath)
      (Settles k fun u => Reconfigured env password k u change) (fun _ u => u.core = k.core) k := by
  apply wp_reconfigures
  intro t ht hchange
  apply wp_copyPath
  · intro u hu
    exact settles_error (by decide) (Same.trans _ _ _ ht hu)
  · intro _ u hu
    exact (Same.trans _ _ _ ht hu).core
  · intro path u hu hpath
    exact hbody path u (Same.trans _ _ _ ht hu) hpath hchange

end Reconfiguring

/-- `do_reconf_add` returns an error without an effect, or appends one entry. -/
theorem wp_doReconfAdd (pathIn passwordIn : UserPtr) :
    wp (doReconfAdd env pathIn passwordIn)
      (Settles k fun t =>
        Reconfigured env passwordIn k t (Appends env pathIn k.core.theInstance.registry))
      (fun _ t => t.core = k.core) k := by
  apply wp_reconfiguresPath
  intro path t ht hpath hchange
  have hcore : t.core = k.core := ht.core
  rw [wp_bind]
  apply wp_mono (wp_addFile path) _ fun _ _ hF => hF.elim
  intro ret u ⟨hunlocks, _, hadd⟩
  have hreleased : Released k u.unlocked := released_of_unlocks (hunlocks.trans ht.unlocks)
  rw [hcore] at hadd
  rcases hadd with ⟨hret, hu⟩ | ⟨hret, entry, hentry, hu⟩
  · rw [if_pos hret, wp_tail]
    exact ⟨hreleased, Or.inl ⟨hret, hu⟩⟩
  · rw [if_neg (not_not.mpr hret), wp_tail]
    exact ⟨hreleased, Or.inr ⟨rfl, hchange _ _ ⟨path, entry, hpath, hentry, rfl⟩ hu⟩⟩

/-- The search that `do_reconf_rm` makes: it finds the entry under the key of the path, unless
the key cannot be computed or an allocation fails. -/
theorem wp_findKey (path : CString) :
    wp (do
      let key ← resolvePathAlloc env (some path) REFMON_FSUTILS_IGNORE_ABSOLUTE_PATHS
      findEntryByRegpathAlloc env key)
      (fun found t => (∀ cwd, (∀ n, env.dPath n = .ok cwd) ∧ isResolved cwd = true →
        found = k.core.theInstance.registry.find? (fun e => e.registered.path = keyOf cwd path) ∨
          found = none ∧ ¬ (env.Allocates ∧ KeyFits cwd path)) ∧
        (∀ entry, found = some entry → entry ∈ k.core.theInstance.registry) ∧ Same k t)
      (fun _ _ => False) k := by
  apply wp_forall
  · rw [wp_bind]
    apply wp_mono (returns_resolvePathAlloc env (some path) _ k) _ fun _ _ hF => hF
    intro key t ht
    apply wp_mono (wp_findEntryByRegpathAlloc_mem key) _ fun _ _ hF => hF
    intro found u ⟨hfound, hu⟩
    rw [ht.core] at hfound
    exact ⟨hfound, Same.trans _ _ _ ht hu⟩
  · intro cwd ⟨hcwd, habs⟩
    rw [wp_bind]
    apply wp_mono (wp_resolvePathAlloc_key hcwd) _ fun _ _ hF => hF.elim
    intro key t ⟨hkey, ht⟩
    rcases hkey with ⟨rfl, -⟩ | ⟨rfl, hno⟩
    · apply wp_mono (wp_findEntryByRegpathAlloc (isResolved_keyOf path habs)) _ fun _ _ hF => hF.elim
      intro found u ⟨hfound, _⟩
      rw [ht.core] at hfound
      exact hfound.imp_right fun h => ⟨h.1, fun hboth => h.2 hboth.1⟩
    · exact Or.inr ⟨rfl, hno⟩

/-- `do_reconf_rm` returns an error without an effect, or deletes one entry. -/
theorem wp_doReconfRm (pathIn passwordIn : UserPtr) :
    wp (doReconfRm env pathIn passwordIn)
      (Settles k fun t =>
        Reconfigured env passwordIn k t (Deletes env pathIn k.core.theInstance.registry))
      (fun _ t => t.core = k.core) k := by
  apply wp_reconfiguresPath
  intro path t ht hpath hchange
  have hcore : t.core = k.core := ht.core
  rw [← bind_assoc, wp_bind]
  apply wp_mono (wp_findKey path) _ fun _ _ hF => hF.elim
  intro found u ⟨hfound, hmem, hu⟩
  rw [hcore] at hfound hmem
  have hlocked := Same.trans _ _ _ ht hu
  cases found with
  | none =>
    dsimp only
    rw [wp_tail]
    exact settles_error (by decide) hlocked
  | some entry =>
    have hfinds : FindsKey env k.core.theInstance.registry path entry := by
      intro cwd hcwd habs
      exact ((hfound cwd ⟨hcwd, habs⟩).resolve_right (by simp)).symm
    refine ⟨released_of_unlocks hlocked.unlocks, Or.inr ⟨rfl, ?_⟩⟩
    apply hchange _ _ ⟨path, entry, hpath, hmem entry rfl, hfinds, rfl⟩
    rw [← hcore, ← hu.core]
    rfl

/-- Deleting every entry of a list from it, in order, leaves nothing. -/
theorem foldl_erase_self (registry : List RegistryEntry) :
    registry.foldl List.erase registry = [] := by
  induction registry with
  | nil => rfl
  | cons entry registry ih =>
    rw [List.foldl_cons, List.erase_cons_head]
    exact ih

/-- `do_flush_registry` returns an error without an effect, or leaves an empty registry. -/
theorem wp_doFlushRegistry (password : UserPtr) :
    wp (doFlushRegistry env password)
      (Settles k fun t => Reconfigured env password k t fun after => after = [])
      (fun _ t => t.core = k.core) k := by
  apply wp_reconfigures
  intro t ht hchange
  have hcore : t.core = k.core := ht.core
  rw [wp_bind, wp_gets]
  split
  · rename_i hempty
    refine ⟨released_of_unlocks ht.unlocks, Or.inr ⟨rfl, hchange _ [] rfl ?_⟩⟩
    rw [List.isEmpty_iff, hcore] at hempty
    change t.core = k.core.withRegistry []
    rw [hcore, Core.withRegistry, ← hempty]
  · refine ⟨released_of_unlocks ht.unlocks, Or.inr ⟨rfl, hchange _ [] rfl ?_⟩⟩
    rw [← hcore, ← foldl_erase_self t.core.theInstance.registry]
    rfl

/-- The instance in another state, with the probes as the kernel then leaves them. -/
def Core.withState (env : Env δ) (state : RefmonState) (core : Core) : Core :=
  { core with
    theInstance := { core.theInstance with state := state },
    enabled := enabledAfter env (isOn { core.theInstance with state := state }) core.enabled }

/-- The ways `do_set_state` can go, by the two readings of its argument. -/
theorem wp_doSetState_readings {newState : UserPtr} {Q : ℤ → Kernel → Prop}
    {E : Fault → Kernel → Prop} (hheld : k.lock = true → E .deadlock k)
    (hdenied : env.euid ≠ GLOBAL_ROOT_UID → Q (-EACCES) k.locked.unlocked)
    (hvalidFault : ∀ fault m, matchState newState stateNames k.locked = .error fault m → E fault m)
    (hinvalid : ∀ m, matchState newState stateNames k.locked = .ok none m → Q (-EINVAL) m.unlocked)
    (hreadFault : ∀ validated m fault u,
      matchState newState stateNames k.locked = .ok (some validated) m →
      stringToState newState m = .error fault u → E fault u)
    (hset : ∀ validated m state u (t : Kernel), env.euid = GLOBAL_ROOT_UID →
      matchState newState stateNames k.locked = .ok (some validated) m →
      stringToState newState m = .ok state u → t.aux.unlocks = k.aux.unlocks →
      t.core = k.core.withState env state → Q 0 t.unlocked) :
    wp (doSetState env newState) Q E k := by
  rw [doSetState, wp_bind]
  apply wp_spinInstanceLock _ hheld
  intro hfree
  rw [safetyChecks_root, pure_bind]
  by_cases hroot : env.euid = GLOBAL_ROOT_UID
  on_goal 2 =>
    rw [if_neg hroot, if_pos (by decide)]
    exact hdenied hroot
  rw [if_pos hroot, if_neg (by decide), isStateValid, bind_assoc, wp_bind]
  apply wp_of_run _ hvalidFault
  intro found m hm
  have hvalid : Same k.locked m := (moves_matchState newState stateNames).ok hm
  rw [pure_bind]
  cases found with
  | none => exact hinvalid m hm
  | some validated =>
    rw [Option.isSome_some, if_neg Bool.true_eq_false.mp, wp_bind, setState, wp_bind]
    apply wp_of_run
    · intro state u hu
      have hread : Same m u := (moves_stringToState newState).ok hu
      have hcore : u.core = k.core := hread.core.trans hvalid.core
      rw [wp_bind, wp_put, wp_bind, wp_gets, wp_bind]
      apply wp_of_ok (probingUpdate_eq _ _)
      rw [if_neg (by simp), wp_pure, if_neg (by simp), wp_tail]
      apply hset validated m state u _ hroot hm hu
      · exact (Same.trans _ _ _ hvalid hread).unlocks
      · rw [← hcore]
        rfl
    · intro fault u hu
      exact hreadFault validated m fault u hm hu

/-- `do_set_state` returns an error without an effect, or sets the state that the second
reading of its argument finds after the first reading has found one. -/
theorem wp_doSetState (newState : UserPtr) :
    wp (doSetState env newState)
      (Settles k fun t => env.euid = GLOBAL_ROOT_UID ∧ ∃ validated m state u,
        matchState newState stateNames k.locked = .ok (some validated) m ∧
          stringToState newState m = .ok state u ∧ t.core = k.core.withState env state)
      (fun _ t => t.core = k.core) k := by
  have hvalid := moves_matchState newState stateNames
  have hread := moves_stringToState newState
  apply wp_doSetState_readings
  · intro _
    rfl
  · intro _
    exact settles_error (by decide) (Same.refl _)
  · intro fault m hm
    exact (hvalid.error hm).core
  · intro m hm
    exact settles_error (by decide) (hvalid.ok hm)
  · intro validated m fault u hm hu
    exact (hread.error hu).core.trans (hvalid.ok hm).core
  · intro validated m state u t hroot hm hu hunlocks ht
    exact ⟨released_of_unlocks hunlocks, Or.inr ⟨rfl, hroot, validated, m, state, u, hm, hu, ht⟩⟩

/-- When both readings find a state, root's call sets the second one. -/
theorem doSetState_sets {newState : UserPtr} {validated state : RefmonState} {m u : Kernel}
    (hfree : k.lock = false) (hroot : env.euid = GLOBAL_ROOT_UID)
    (hvalid : matchState newState stateNames k.locked = .ok (some validated) m)
    (hread : stringToState newState m = .ok state u) :
    ∃ t, doSetState env newState k = .ok 0 t ∧ t.core = k.core.withState env state := by
  have hrun : wp (doSetState env newState)
      (fun ret t => ret = 0 ∧ t.core = k.core.withState env state) (fun _ _ => False) k := by
    apply wp_doSetState_readings
    · intro hheld
      exact Bool.false_ne_true (hfree.symm.trans hheld)
    · intro hdenied
      exact absurd hroot hdenied
    · intro fault m' hm'
      rw [hvalid] at hm'
      cases hm'
    · intro m' hm'
      rw [hvalid] at hm'
      cases hm'
    · intro validated' m' fault u' hm' hu'
      rw [hvalid] at hm'
      cases hm'
      rw [hread] at hu'
      cases hu'
    · intro validated' m' state' u' t _ hm' hu' _ ht
      rw [hvalid] at hm'
      cases hm'
      rw [hread] at hu'
      cases hu'
      exact ⟨rfl, ht⟩
  obtain ⟨ret, t, hok, rfl, hcore⟩ := wp_returns hrun
  exact ⟨t, hok, hcore⟩

end Refmon
