import Refmon.NamespaceSpecs
import Refmon.SafetySpecs

/-!
# What a system call can do

The three reconfiguration calls share their beginning: take the lock, pass the checks, and
otherwise release the lock and return. `wp_guarded` describes it once. Each call is then
described by the change it makes to the registry, and `do_set_state` by the two readings of
its argument.
-/

namespace Refmon

open Wp

/-- The module while a call holds the lock. -/
def Kernel.locked (k : Kernel) : Kernel := { k with lock := true }

/-- The module after a call has released the lock. -/
def Kernel.unlocked (k : Kernel) : Kernel :=
  { k with lock := false, aux := { k.aux with unlocks := k.aux.unlocks + 1 } }

@[simp] theorem Kernel.locked_core (k : Kernel) : k.locked.core = k.core := rfl

@[simp] theorem Kernel.locked_lock (k : Kernel) : k.locked.lock = true := rfl

@[simp] theorem Kernel.unlocked_core (k : Kernel) : k.unlocked.core = k.core := rfl

@[simp] theorem Kernel.unlocked_lock (k : Kernel) : k.unlocked.lock = false := rfl

/-- A call that began at `k` has released the lock, once. -/
def Released (k t : Kernel) : Prop := t.lock = false ∧ t.aux.unlocks = k.aux.unlocks + 1

/-- A call that has not touched its lock releases it once. -/
theorem released_of_unlocks {k t : Kernel} (h : t.aux.unlocks = k.aux.unlocks) : Released k t.unlocked := by
  constructor
  · rfl
  · change t.aux.unlocks + 1 = k.aux.unlocks + 1
    rw [h]

@[simp] theorem wp_tail {ret : ℤ} {k : Kernel} {Q : ℤ → Kernel → Prop} {E : Fault → Kernel → Prop} :
    wp (tail ret) Q E k ↔ Q ret k.unlocked := Iff.rfl

variable {δ : Type} {env : Env δ} {k : Kernel}

/-- The beginning that the reconfiguration calls share, with what follows it. -/
theorem wp_guarded {arg : UserPtr} {body : K ℤ} {Q : ℤ → Kernel → Prop} {E : Fault → Kernel → Prop}
    (hheld : k.lock = true → E .deadlock k)
    (hfault : k.lock = false → ∀ fault t, Same k.locked t → E fault t)
    (hrefused : ∀ ret t, ret ≠ 0 → Same k.locked t → Q ret t.unlocked)
    (hbody : ∀ t, Same k.locked t → env.euid = GLOBAL_ROOT_UID →
      isReconf k.core.theInstance = true → (arg.Stable → Authorised env k arg) → wp body Q E t) :
    wp (do
      spinInstanceLock
      let ret ← safetyChecks env reconfChecks arg
      if ret ≠ 0 then tail ret else body) Q E k := by
  rw [wp_bind]
  apply wp_spinInstanceLock _ hheld
  intro hfree
  rw [wp_bind]
  apply wp_mono (wp_safetyChecks_authorised env arg) _ fun fault t ht => hfault hfree fault t ht
  intro ret t ⟨hret, ht⟩
  by_cases hzero : ret = 0
  · rw [if_neg (not_not.mpr hzero)]
    obtain ⟨hroot, hreconf, hpassword⟩ := hret hzero
    exact hbody t ht hroot hreconf fun hstable => ⟨hroot, hreconf, hpassword hstable⟩
  · rw [if_pos hzero, wp_tail]
    exact hrefused ret t hzero ht

/-- The same beginning for an authorised caller whose password can be copied and hashed. -/
theorem wp_guarded_accepts {arg : UserPtr} {supplied : CString} {body : K ℤ}
    {Q : ℤ → Kernel → Prop} {E : Fault → Kernel → Prop} (hfree : k.lock = false)
    (hroot : env.euid = GLOBAL_ROOT_UID) (hreconf : isReconf k.core.theInstance = true)
    (hpoints : PointsTo arg supplied)
    (hpassword : k.core.theInstance.PasswordIs (env.sha256 supplied.bytes))
    (hcopy : Copyable env supplied) (hcrypto : env.Hashes)
    (hbody : ∀ t, Same k.locked t → wp body Q E t) :
    wp (do
      spinInstanceLock
      let ret ← safetyChecks env reconfChecks arg
      if ret ≠ 0 then tail ret else body) Q E k := by
  rw [wp_bind]
  apply wp_spinInstanceLock _ fun hheld => absurd (hfree.symm.trans hheld) Bool.false_ne_true
  intro _
  rw [wp_bind]
  apply wp_mono (wp_safetyChecks_accepts env (k := k.locked) hroot hreconf hpoints hpassword hcopy
    hcrypto) _ fun _ _ hE => hE.elim
  intro ret t ⟨hret, ht⟩
  rw [if_neg (not_not.mpr hret)]
  exact hbody t ht

/-- The instance with another registry. -/
def Core.withRegistry (core : Core) (registry : List RegistryEntry) : Core :=
  { core with theInstance := { core.theInstance with registry := registry } }

/-- The keys of a registry, in order. -/
def keys (registry : List RegistryEntry) : List CString := registry.map fun e => e.registered.path

/-- What is known of the entry that `_add_file` makes for a path. -/
structure Added (env : Env δ) (registry : List RegistryEntry) (path : CString)
    (entry : RegistryEntry) : Prop where
  key : ∀ cwd, (∀ n, env.dPath n = .ok cwd) → entry.registered.path = keyOf cwd path ∧ KeyFits cwd path
  exists_dentry : ∃ n dentry, env.kernPath n path false = .ok dentry
  absent : env.Allocates → isResolved entry.registered.path = true →
    entry.registered.path ∉ keys registry
  found : entry.registered.inoNo ≠ REFMON_NO_INO_NO ∧ entry.resolved.inoNo ≠ REFMON_NO_INO_NO
  resolved : ∀ fs : Vfs δ, env.Sees fs → fs.entryPath path = some entry.resolved.path ∧
    entry.registered.inoNo = fs.inoAt path ∧ entry.resolved.inoNo = fs.inoAt entry.resolved.path

/-- A key is present exactly when the search for it succeeds. -/
theorem find_key_eq_none_iff (registry : List RegistryEntry) (key : CString) :
    registry.find? (fun e => e.registered.path = key) = none ↔ key ∉ keys registry := by
  simp [keys, List.find?_eq_none]

/-- A key made in an absolute directory is absolute. -/
theorem isResolved_keyOf {cwd : CString} (path : CString) (hcwd : isResolved cwd = true) :
    isResolved (keyOf cwd path) = true := by
  unfold keyOf
  split
  · assumption
  · cases cwd with
    | nil => simp [isResolved] at hcwd
    | cons c cwd => exact hcwd

/-- An authorised request for a path whose key is present fails with this error. -/
def Refuses (env : Env δ) (registry : List RegistryEntry) (path : CString) (ret : ℤ) : Prop :=
  ∀ cwd, (∀ n, env.dPath n = .ok cwd) → isResolved cwd = true → env.Allocates →
    KeyFits cwd path → keyOf cwd path ∈ keys registry → ret = -EEXIST

/-- `_add_file` appends one entry and returns zero, or returns an error and changes nothing. -/
theorem wp_addFile (path : CString) :
    wp (addFile env path)
      (fun ret t => t.aux.unlocks = k.aux.unlocks ∧ Refuses env k.core.theInstance.registry path ret ∧
        (ret ≠ 0 ∧ t.core = k.core ∨
          ret = 0 ∧ ∃ entry, Added env k.core.theInstance.registry path entry ∧
            t.core = k.core.withRegistry (k.core.theInstance.registry ++ [entry])))
      (fun _ _ => False) k := by
  set registry := k.core.theInstance.registry with hregistry
  set Q : ℤ → Kernel → Prop := fun ret t => t.aux.unlocks = k.aux.unlocks ∧ Refuses env registry path ret ∧
    (ret ≠ 0 ∧ t.core = k.core ∨ ret = 0 ∧ ∃ entry, Added env registry path entry ∧
      t.core = k.core.withRegistry (registry ++ [entry])) with hQ
  have hgiveup (ret : ℤ) (t : Kernel) (hret : ret ≠ 0) (ht : Same k t)
      (hrefuses : Refuses env registry path ret) : Q ret t :=
    ⟨ht.unlocks, hrefuses, Or.inl ⟨hret, ht.core⟩⟩
  have hnoalloc (ret : ℤ) (h : ¬ env.Allocates) : Refuses env registry path ret :=
    fun _ _ _ halloc => absurd halloc h
  apply wp_ask_else
  · intro t ht h
    exact hgiveup _ t (by decide) ht (hnoalloc _ h)
  intro t₁ k₁
  rw [wp_bind]
  apply wp_mono (wp_forall (returns_resolvePathAlloc env (some path) _ t₁)
    fun cwd (hcwd : ∀ n, env.dPath n = .ok cwd) => wp_of_returns (wp_resolvePathAlloc_key hcwd)) _
    fun _ _ hF => hF
  intro key t₂ ⟨hkey, h₂⟩
  have k₂ := Same.trans _ _ _ k₁ h₂
  cases key with
  | none =>
    apply hgiveup _ t₂ (by decide) k₂
    intro cwd hcwd _ halloc hfits _
    rcases (hkey cwd hcwd).1 with ⟨hsome, -⟩ | ⟨-, hno⟩
    · cases hsome
    · exact (hno ⟨halloc, hfits⟩).elim
  | some key =>
    have hkeyOf (cwd : CString) (hcwd : ∀ n, env.dPath n = .ok cwd) :
        key = keyOf cwd path ∧ KeyFits cwd path := by
      rcases (hkey cwd hcwd).1 with ⟨hsome, hfits⟩ | ⟨hnone, -⟩
      · exact ⟨Option.some.inj hsome, hfits⟩
      · cases hnone
    dsimp only
    rw [wp_bind]
    apply wp_mono (wp_forall (returns_findEntryByRegpathAlloc env (some key) t₂)
      fun (_ : Unit) (habs : isResolved key = true) => wp_of_returns (wp_findEntryByRegpathAlloc habs)) _
      fun _ _ hF => hF
    intro found t₃ ⟨hfound, h₃⟩
    have k₃ := Same.trans _ _ _ k₂ h₃
    by_cases hpresent : found.isSome = true
    · rw [if_pos hpresent]
      exact hgiveup _ t₃ (by decide) k₃ fun _ _ _ _ _ _ => rfl
    rw [if_neg hpresent]
    have habsent (halloc : env.Allocates) (habs : isResolved key = true) : key ∉ keys registry := by
      rcases (hfound () habs).1 with hfind | ⟨-, hno⟩
      · rw [Option.not_isSome_iff_eq_none.mp hpresent, k₂.core] at hfind
        exact (find_key_eq_none_iff registry key).mp hfind.symm
      · exact absurd halloc hno
    have hrefuses (ret : ℤ) : Refuses env registry path ret := by
      intro cwd hcwd habs halloc _ hmem
      rw [← (hkeyOf cwd hcwd).1] at hmem
      have hkeyabs : isResolved key = true := by
        rw [(hkeyOf cwd hcwd).1]
        exact isResolved_keyOf path habs
      exact absurd hmem (habsent halloc hkeyabs)
    apply wp_ask_else
    · intro t ht _
      exact hgiveup _ t (by decide) (Same.trans _ _ _ k₃ ht) (hrefuses _)
    intro t₄ h₄
    have k₄ := Same.trans _ _ _ k₃ h₄
    rw [wp_bind]
    apply wp_mono (wp_forall (returns_resolvePathAlloc env (some path) _ t₄)
      fun (fs : Vfs δ) (hsees : env.Sees fs) =>
        wp_of_returns (wp_resolvePathAlloc_entry hsees path)) _ fun _ _ hF => hF
    intro resolved t₅ ⟨hresolved, h₅⟩
    have k₅ := Same.trans _ _ _ k₄ h₅
    cases resolved with
    | none => exact hgiveup _ t₅ (by decide) k₅ (hrefuses _)
    | some resolvedPath =>
      have hino (p : CString) (t : Kernel) := wp_forall (wp_extractInoNoFromPath_found env p t)
        fun (fs : Vfs δ) (hsees : env.Sees fs) =>
          wp_of_returns (E := fun _ _ => True) (wp_extractInoNoFromPath hsees p)
      dsimp only
      rw [wp_bind]
      apply wp_mono (hino path t₅) _ fun _ _ hF => hF
      intro inoRegistered t₆ ⟨hregistered, hdentry, h₆⟩
      have k₆ := Same.trans _ _ _ k₅ h₆
      by_cases hreg : inoRegistered = REFMON_NO_INO_NO
      · rw [if_pos hreg]
        exact hgiveup _ t₆ (by decide) k₆ (hrefuses _)
      rw [if_neg hreg, wp_bind]
      apply wp_mono (hino resolvedPath t₆) _ fun _ _ hF => hF
      intro inoResolved t₇ ⟨hresolvedIno, _, h₇⟩
      have k₇ := Same.trans _ _ _ k₆ h₇
      by_cases hres : inoResolved = REFMON_NO_INO_NO
      · rw [if_pos hres]
        exact hgiveup _ t₇ (by decide) k₇ (hrefuses _)
      rw [if_neg hres]
      apply wp_ask_else
      · intro t ht _
        exact hgiveup _ t (by decide) (Same.trans _ _ _ k₇ ht) (hrefuses _)
      intro t₈ h₈
      have k₈ := Same.trans _ _ _ k₇ h₈
      refine ⟨k₈.unlocks, hrefuses 0, Or.inr ⟨rfl, ⟨⟨key, inoRegistered⟩, ⟨resolvedPath, inoResolved⟩⟩,
        ⟨hkeyOf, hdentry hreg, habsent, ⟨hreg, hres⟩, ?_⟩, ?_⟩⟩
      · intro fs hsees
        refine ⟨?_, (hregistered fs hsees).1, (hresolvedIno fs hsees).1⟩
        exact ((hresolved fs hsees).1.resolve_right (by simp)).symm
      · rw [k₈.core]
        rfl

end Refmon
