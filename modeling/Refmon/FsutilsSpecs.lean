import Refmon.Fsutils

/-!
# What the path functions compute

None of them changes the module's lasting state and none but `extract_path_from_dentry`
faults. The key under which a path is registered is `keyOf`.
-/

namespace Refmon

open Wp

/-- `is_subpath` is the prefix test at a component boundary. -/
theorem isSubpath_iff (basePath subPath : CString) :
    isSubpath basePath subPath = true ↔
      ∃ rest, subPath = basePath ++ rest ∧ (rest = [] ∨ rest.head? = some slash) := by
  have hcmp := strncmp_eq_zero_iff basePath subPath [] basePath.length
  rw [List.append_nil, List.take_length] at hcmp
  rw [isSubpath, Bool.and_eq_true, beq_iff_eq, hcmp, Bool.or_eq_true, beq_iff_eq, beq_iff_eq]
  have hread (rest : CString) :
      (CString.mem (basePath ++ rest))[basePath.length]? = (CString.mem rest)[0]? := by
    simp [CString.mem, CString.bytes, List.append_assoc]
  constructor
  · rintro ⟨htake, hnext⟩
    refine ⟨subPath.drop basePath.length, ?_, ?_⟩
    · conv_lhs => rw [← List.take_append_drop basePath.length subPath, ← htake]
    · rw [← List.take_append_drop basePath.length subPath, ← htake, hread] at hnext
      cases hrest : subPath.drop basePath.length with
      | nil => exact Or.inl rfl
      | cons c rest =>
        rw [hrest] at hnext
        simp only [CString.mem_cons, List.getElem?_cons_zero, Option.some.injEq] at hnext
        rcases hnext with hnul | hslash
        · exact absurd hnul c.property
        · exact Or.inr (congrArg some (Subtype.ext hslash))
  · rintro ⟨rest, rfl, hrest⟩
    refine ⟨by simp, ?_⟩
    rw [hread]
    rcases hrest with rfl | hhead
    · exact Or.inl rfl
    · cases rest with
      | nil => simp at hhead
      | cons c rest =>
        rw [List.head?_cons, Option.some.injEq] at hhead
        subst hhead
        exact Or.inr rfl

section AnyNamespace

variable {δ : Type} (env : Env δ)

/-- A property of code that sequences of questions to the kernel have. -/
structure Querying (env : Env δ) (P : ∀ {α : Type}, K α → Prop) : Prop where
  pure : ∀ {α : Type} (a : α), P (pure a : K α)
  bind : ∀ {α β : Type} {m : K α} {f : α → K β}, P m → (∀ a, P (f a)) → P (m >>= f)
  ask : ∀ {α : Type} (answer : ℕ → α), P (ask answer)
  kernPath : ∀ path follow, P (kernPath env path follow)
  pathPut : P pathPut

section Querying

variable {env} {P : ∀ {α : Type}, K α → Prop}

/-- Both branches of a test have the property. -/
theorem Querying.ite (_ : Querying env P) {α : Type} {c : Prop} [Decidable c] {m n : K α} (hm : P m)
    (hn : P n) : P (if c then m else n) := by
  split
  · exact hm
  · exact hn

variable (h : Querying env P)

include h

theorem Querying.isDir (path : CString) : P (isDir env path) := by
  refine h.bind (h.kernPath path true) fun found => ?_
  cases found with
  | error e => exact h.pure _
  | ok p => exact h.bind h.pathPut fun _ => h.pure _

theorem Querying.searchNodes (criteria : ℕ) (path : CString) (inoNo : UInt64)
    (nodes : List RegistryEntry) : P (searchNodes env criteria path inoNo nodes) := by
  induction nodes with
  | nil => exact h.pure _
  | cons node rest ih =>
    refine h.ite (h.pure _) (h.ite ?_ ih)
    exact h.bind (h.isDir _) fun _ => h.ite (h.pure _) ih

theorem Querying.resolvePathAlloc (inputPath : Option CString) (flags : ℕ) :
    P (resolvePathAlloc env inputPath flags) := by
  cases inputPath with
  | none => exact h.pure _
  | some path =>
    have hnone : P (Pure.pure none : K (Option CString)) := h.pure _
    have hput (out : Option CString) : P (do Refmon.pathPut; Pure.pure out) :=
      h.bind h.pathPut fun _ => h.pure _
    refine h.ite hnone (h.bind (h.ask _) fun copy => ?_)
    refine h.ite hnone (h.ite (h.pure _) ?_)
    refine h.bind (h.ask _) fun buffer => ?_
    refine h.ite hnone (h.ite ?_ ?_)
    · refine h.bind (h.kernPath path true) fun found => ?_
      cases found with
      | error e => exact hnone
      | ok p =>
        refine h.bind (h.ask _) fun temp => ?_
        cases temp with
        | error e => exact hput none
        | ok temp => exact h.ite (hput none) (hput (some temp))
    · refine h.bind (h.ask _) fun temp => ?_
      cases temp with
      | error e => exact hnone
      | ok temp => exact h.ite hnone (h.pure _)

end Querying

/-- Questions return, and change nothing that lasts. -/
theorem querying_returns : Querying env fun m => Returns Same m where
  pure _ := Returns.pure Same.refl _
  bind := Returns.bind Same.trans
  ask := returns_ask
  kernPath := returns_kernPath env
  pathPut := returns_pathPut

theorem returns_searchNodes (criteria : ℕ) (path : CString) (inoNo : UInt64)
    (nodes : List RegistryEntry) : Returns Same (searchNodes env criteria path inoNo nodes) :=
  (querying_returns env).searchNodes criteria path inoNo nodes

theorem returns_searchEntry (idPath : Option CString) (idInoNo : UInt64) (criteria : ℕ) :
    Returns Same (searchEntry env idPath idInoNo criteria) := by
  refine Returns.bind Same.trans (returns_gets _) fun registry => ?_
  refine Returns.ite (Returns.pure Same.refl _) ?_
  cases idPath with
  | none => exact Returns.pure Same.refl _
  | some path => exact Returns.ite (Returns.pure Same.refl _) (returns_searchNodes env _ _ _ _)

theorem returns_resolvePathAlloc (inputPath : Option CString) (flags : ℕ) :
    Returns Same (resolvePathAlloc env inputPath flags) :=
  (querying_returns env).resolvePathAlloc inputPath flags

/-- An inode number other than the sentinel comes from a successful lookup. -/
theorem wp_extractInoNoFromPath_found (path : CString) (k : Kernel) :
    wp (extractInoNoFromPath env path)
      (fun ino t => (ino ≠ REFMON_NO_INO_NO → ∃ n dentry, env.kernPath n path false = .ok dentry) ∧
        Same k t)
      (fun _ _ => False) k := by
  rw [extractInoNoFromPath, wp_bind]
  apply wp_kernPath
  intro t ht
  cases hfound : env.kernPath k.aux.clock path false with
  | error e => exact ⟨fun hne => absurd rfl hne, ht⟩
  | ok dentry => exact ⟨fun _ => ⟨_, dentry, hfound⟩, ht⟩

theorem returns_findEntryByRegpathAlloc (registeredPath : Option CString) :
    Returns Same (findEntryByRegpathAlloc env registeredPath) := by
  refine Returns.bind Same.trans (returns_resolvePathAlloc env registeredPath _) fun solved => ?_
  cases solved with
  | none => exact Returns.pure Same.refl _
  | some solved => exact returns_searchEntry env _ _ _

/-- The path under which a call from the directory `cwd` registers `path`. -/
def keyOf (cwd path : CString) : CString := if isResolved path then path else cwd ++ slash :: path

/-- The key can be computed: there is a path, and a key built from `cwd` fits its buffer. -/
def KeyFits (cwd path : CString) : Prop :=
  path ≠ [] ∧ (isResolved path = true ∨ (keyOf cwd path).length < PATH_MAX)

variable {env}

/-- An absolute path is returned as it is when the flags say so. -/
theorem wp_resolvePathAlloc_absolute {k : Kernel} {path : CString} {flags : ℕ}
    (hflag : hasFlag flags REFMON_FSUTILS_IGNORE_ABSOLUTE_PATHS = true)
    (habs : isResolved path = true) :
    wp (resolvePathAlloc env (some path) flags)
      (fun out t => (out = some path ∨ out = none ∧ ¬ env.Allocates) ∧ Same k t)
      (fun _ _ => False) k := by
  have hne : path.length ≠ 0 := by
    cases path with
    | nil => simp [isResolved] at habs
    | cons c rest => simp
  rw [resolvePathAlloc, if_neg hne]
  refine wp_ask_else (fun t h hfail => ⟨Or.inr ⟨rfl, hfail⟩, h⟩) fun t h => ?_
  rw [if_pos ⟨hflag, habs⟩]
  exact ⟨Or.inl rfl, h⟩

/-- Without link resolution the result is the key, unless an allocation fails or the key
does not fit. -/
theorem wp_resolvePathAlloc_key {k : Kernel} {cwd path : CString}
    (hcwd : ∀ n, env.dPath n = .ok cwd) :
    wp (resolvePathAlloc env (some path) REFMON_FSUTILS_IGNORE_ABSOLUTE_PATHS)
      (fun out t => (out = some (keyOf cwd path) ∧ KeyFits cwd path ∨
        out = none ∧ ¬ (env.Allocates ∧ KeyFits cwd path)) ∧ Same k t)
      (fun _ _ => False) k := by
  by_cases habs : isResolved path = true
  · refine wp_mono (wp_resolvePathAlloc_absolute rfl habs) ?_ fun _ _ hF => hF
    rintro out t ⟨hout, ht⟩
    have hkey : keyOf cwd path = path := if_pos habs
    have hne : path ≠ [] := by
      rintro rfl
      simp [isResolved] at habs
    refine ⟨?_, ht⟩
    rw [hkey]
    exact hout.imp (fun hsome => ⟨hsome, hne, Or.inl habs⟩)
      (fun hnone => ⟨hnone.1, fun hboth => hnone.2 hboth.1⟩)
  have hkey : keyOf cwd path = cwd ++ slash :: path := if_neg habs
  rw [resolvePathAlloc]
  split
  · rename_i hempty
    exact ⟨Or.inr ⟨rfl, fun hboth => hboth.2.1 (List.length_eq_zero_iff.mp hempty)⟩, Same.refl k⟩
  rename_i hne
  have hfail {t : Kernel} (h : Same k t) (hno : ¬ env.Allocates) :
      ((none : Option CString) = some (keyOf cwd path) ∧ KeyFits cwd path ∨
        (none : Option CString) = none ∧ ¬ (env.Allocates ∧ KeyFits cwd path)) ∧ Same k t :=
    ⟨Or.inr ⟨rfl, fun hboth => hno hboth.1⟩, h⟩
  refine wp_ask_else (fun t h => hfail h) fun t₁ h₁ => ?_
  rw [if_neg (fun hboth => habs hboth.2)]
  refine wp_ask_else (fun t h => hfail (Same.trans _ _ _ h₁ h)) fun t₂ h₂ => ?_
  have k₂ := Same.trans _ _ _ h₁ h₂
  rw [if_neg (by decide), wp_bind]
  refine wp_ask fun t₃ h₃ => ?_
  have k₃ := Same.trans _ _ _ k₂ h₃
  rw [hcwd]
  dsimp only
  rw [← hkey]
  split
  · rename_i hlong
    refine ⟨Or.inr ⟨rfl, fun hboth => ?_⟩, k₃⟩
    exact hboth.2.2.elim habs fun hfits => absurd hlong (Nat.not_le.mpr hfits)
  · rename_i hshort
    exact ⟨Or.inl ⟨rfl, fun hnil => hne (by rw [hnil]; rfl), Or.inr (Nat.not_le.mp hshort)⟩, k₃⟩

/-- Searching by registered path finds the first entry with that path. -/
theorem wp_searchEntry_registered {k : Kernel} {path : CString} (inoNo : UInt64) (hne : path ≠ []) :
    wp (searchEntry env (some path) inoNo REFMON_SEARCH_CRIT_REGISTERED_PATH)
      (fun found t => found = k.core.theInstance.registry.find? (fun e => e.registered.path = path) ∧
        Same k t)
      (fun _ _ => False) k := by
  have hnodes (nodes : List RegistryEntry) :
      wp (searchNodes env REFMON_SEARCH_CRIT_REGISTERED_PATH path inoNo nodes)
        (fun found t => found = nodes.find? (fun e => e.registered.path = path) ∧ Same k t)
        (fun _ _ => False) k := by
    induction nodes with
    | nil => exact ⟨rfl, Same.refl k⟩
    | cons node rest ih =>
      have hmatch : matchesFields REFMON_SEARCH_CRIT_REGISTERED_PATH node path inoNo =
          matchString node.registered.path path := by
        simp [matchesFields, hasFlag, REFMON_SEARCH_CRIT_REGISTERED_PATH,
          REFMON_SEARCH_CRIT_REGISTERED_INO, REFMON_SEARCH_CRIT_ABSOLUTE_PATH,
          REFMON_SEARCH_CRIT_ABSOLUTE_INO]
      rw [searchNodes, hmatch]
      by_cases hpath : node.registered.path = path
      · rw [if_pos ((matchString_iff _ _).mpr hpath), List.find?_cons_of_pos (by simp [hpath])]
        exact ⟨rfl, Same.refl k⟩
      · rw [if_neg (fun h => hpath ((matchString_iff _ _).mp h)), if_neg (by decide),
          List.find?_cons_of_neg (by simp [hpath])]
        exact ih
  rw [searchEntry, wp_bind, wp_gets]
  split
  · rename_i hempty
    rw [List.isEmpty_iff] at hempty
    rw [hempty]
    exact ⟨rfl, Same.refl k⟩
  · dsimp only
    rw [if_neg (fun h => hne ((matchString_iff _ _).mp h.1))]
    exact hnodes _

/-- A search by registered path without a path finds nothing. -/
theorem wp_searchEntry_empty {k : Kernel} (inoNo : UInt64) :
    wp (searchEntry env (some []) inoNo REFMON_SEARCH_CRIT_REGISTERED_PATH)
      (fun found t => found = none ∧ Same k t) (fun _ _ => False) k := by
  rw [searchEntry, wp_bind, wp_gets]
  split
  · exact ⟨rfl, Same.refl k⟩
  · exact ⟨rfl, Same.refl k⟩

/-- Whatever is looked up, what is found is in the registry. -/
theorem wp_findEntryByRegpathAlloc_mem {k : Kernel} (registeredPath : Option CString) :
    wp (findEntryByRegpathAlloc env registeredPath)
      (fun found t => (∀ entry, found = some entry → entry ∈ k.core.theInstance.registry) ∧ Same k t)
      (fun _ _ => False) k := by
  rw [findEntryByRegpathAlloc, wp_bind]
  apply wp_mono (returns_resolvePathAlloc env registeredPath _ k) _ fun _ _ hF => hF
  intro solved t ht
  cases solved with
  | none => exact ⟨fun entry h => (by cases h), ht⟩
  | some path =>
    by_cases hne : path = []
    · subst hne
      apply wp_mono (wp_searchEntry_empty _) _ fun _ _ hF => hF
      intro found u ⟨hfound, hu⟩
      refine ⟨fun entry h => ?_, Same.trans _ _ _ ht hu⟩
      rw [hfound] at h
      cases h
    · apply wp_mono (wp_searchEntry_registered _ hne) _ fun _ _ hF => hF
      intro found u ⟨hfound, hu⟩
      refine ⟨fun entry h => ?_, Same.trans _ _ _ ht hu⟩
      rw [hfound, ht.core] at h
      exact List.mem_of_find?_eq_some h

/-- Looking an absolute path up in the registry finds its entry, unless an allocation
fails. -/
theorem wp_findEntryByRegpathAlloc {k : Kernel} {path : CString} (habs : isResolved path = true) :
    wp (findEntryByRegpathAlloc env (some path))
      (fun found t => (found = k.core.theInstance.registry.find? (fun e => e.registered.path = path) ∨
        found = none ∧ ¬ env.Allocates) ∧ Same k t)
      (fun _ _ => False) k := by
  have hne : path ≠ [] := by
    rintro rfl
    simp [isResolved] at habs
  rw [findEntryByRegpathAlloc, wp_bind]
  refine wp_mono (wp_resolvePathAlloc_absolute rfl habs) ?_ fun _ _ hF => hF
  rintro out t ⟨rfl | ⟨rfl, hfail⟩, ht⟩
  · refine wp_mono (wp_searchEntry_registered _ hne) ?_ fun _ _ hF => hF
    rintro found u ⟨rfl, hu⟩
    exact ⟨Or.inl (by rw [ht.core]), Same.trans _ _ _ ht hu⟩
  · exact ⟨Or.inr ⟨rfl, hfail⟩, ht⟩

end AnyNamespace

end Refmon
