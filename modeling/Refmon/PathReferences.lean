import Refmon.Calls
import Refmon.ProbingHandlers

/-!
# Path references

A successful `kern_path` takes a reference that `path_put` gives back. `is_dir` and
`resolve_path_alloc` give back what they take, and `extract_ino_no_from_path` does not: a hook, or an
addition to the registry, ends with more references than it began with exactly when it gets to a
lookup of an inode number and the lookup succeeds. No step gives such a reference back, so that they
pile up over a run.
-/

namespace Refmon

open Wp Runs

/-- So many references more are held. -/
def Takes (n : ℤ) (s t : Kernel) : Prop := t.aux.refs = s.aux.refs + n

theorem Takes.comp {m n : ℤ} {s t u : Kernel} (hst : Takes m s t) (htu : Takes n t u) :
    Takes (m + n) s u := by
  rw [Takes] at hst htu ⊢
  rw [htu, hst, add_assoc]

/-- Code that takes no references to keep. -/
theorem takes_steady : Steady (Takes 0) where
  refl s := (add_zero _).symm
  trans _ _ _ hst htu := by simpa using hst.comp htu
  tick s := (add_zero _).symm

/-- References are taken to keep exactly if `P` holds, and none is given back that was held before. -/
structure Pins (P : Prop) (s t : Kernel) : Prop where
  balanced : t.aux.refs = s.aux.refs ↔ ¬ P
  grows : s.aux.refs ≤ t.aux.refs

theorem Takes.not_pins {P : Prop} {s t : Kernel} (h : Takes 0 s t) (hP : ¬ P) : Pins P s t := by
  rw [Takes, add_zero] at h
  exact ⟨iff_of_true h hP, h.ge⟩

theorem Takes.pins {P : Prop} {n : ℤ} {s t : Kernel} (h : Takes n s t) (hn : 0 < n) (hP : P) :
    Pins P s t := by
  rw [Takes] at h
  exact ⟨iff_of_false (by omega) (not_not.mpr hP), by omega⟩

/-- Code that takes nothing to keep does not change what has been taken. -/
theorem Pins.then {P : Prop} {s t u : Kernel} (h : Pins P s t) (htu : Takes 0 t u) : Pins P s u := by
  rw [Takes, add_zero] at htu
  exact ⟨by rw [htu, h.balanced], by rw [htu]; exact h.grows⟩

/-- Code before which nothing is taken to keep. -/
theorem Takes.pins_after {P Q : Prop} {s t u : Kernel} (h : Takes 0 s t) (hiff : P ↔ Q) (htu : Pins Q t u) :
    Pins P s u := by
  rw [Takes, add_zero] at h
  exact ⟨by rw [← h, htu.balanced, hiff], by rw [← h]; exact htu.grows⟩

theorem Pins.unlocked {P : Prop} {s t : Kernel} (h : Pins P s t) : Pins P s t.unlocked :=
  ⟨h.balanced, h.grows⟩

section Balanced

variable {δ : Type} (env : Env δ)

/-- A reference that is taken for a lookup and given back behind it. -/
theorem returns_kernPath_put {α : Type} (path : CString) (follow : Bool) {m : ℤ → K α} {f : δ → K α}
    (hm : ∀ e, Returns (Takes 0) (m e)) (hf : ∀ p, Returns (Takes (-1)) (f p)) :
    Returns (Takes 0) (kernPath env path follow >>= fun found =>
      match found with
      | .error e => m e
      | .ok p => f p) := by
  intro s
  rw [wp_bind]
  unfold wp kernPath
  cases env.kernPath s.aux.clock path follow with
  | error e => exact wp_mono (hm e s.tick) (fun _ _ h => h) fun _ _ hF => hF
  | ok p =>
    refine wp_mono (hf p (s.tick.hold 1)) (fun _ t h => ?_) fun _ _ hF => hF
    have htaken : Takes 1 s (s.tick.hold 1) := rfl
    exact htaken.comp h

/-- A result returned after the reference was given back. -/
theorem returns_pathPut_pure {α : Type} (a : α) : Returns (Takes (-1)) (pathPut >>= fun _ => pure a) :=
  fun _ => rfl

theorem takes_isDir (path : CString) : Returns (Takes 0) (isDir env path) :=
  returns_kernPath_put env path true (fun _ => Returns.pure takes_steady.refl _)
    fun _ => returns_pathPut_pure _

theorem takes_searchNodes (criteria : ℕ) (path : CString) (inoNo : UInt64)
    (nodes : List RegistryEntry) : Returns (Takes 0) (searchNodes env criteria path inoNo nodes) := by
  induction nodes with
  | nil => exact Returns.pure takes_steady.refl _
  | cons node rest ih =>
    refine Returns.ite (Returns.pure takes_steady.refl _) (Returns.ite ?_ ih)
    exact Returns.bind takes_steady.trans (takes_isDir env _) fun _ =>
      Returns.ite (Returns.pure takes_steady.refl _) ih

theorem takes_searchEntry (idPath : Option CString) (idInoNo : UInt64) (criteria : ℕ) :
    Returns (Takes 0) (searchEntry env idPath idInoNo criteria) := by
  refine Returns.bind takes_steady.trans (takes_steady.returns_gets _) fun registry => ?_
  refine Returns.ite (Returns.pure takes_steady.refl _) ?_
  cases idPath with
  | none => exact Returns.pure takes_steady.refl _
  | some path => exact Returns.ite (Returns.pure takes_steady.refl _) (takes_searchNodes env _ _ _ _)

theorem takes_resolvePathAlloc (inputPath : Option CString) (flags : ℕ) :
    Returns (Takes 0) (resolvePathAlloc env inputPath flags) := by
  cases inputPath with
  | none => exact Returns.pure takes_steady.refl _
  | some path =>
    have hnone : Returns (Takes 0) (pure none : K (Option CString)) := Returns.pure takes_steady.refl _
    refine Returns.ite hnone (Returns.bind takes_steady.trans (takes_steady.returns_ask _) fun copy => ?_)
    refine Returns.ite hnone (Returns.ite (Returns.pure takes_steady.refl _) ?_)
    refine Returns.bind takes_steady.trans (takes_steady.returns_ask _) fun buffer => ?_
    refine Returns.ite hnone (Returns.ite ?_ ?_)
    · refine returns_kernPath_put env path true (fun _ => hnone) fun p => ?_
      have hcomp (s t u : Kernel) (hst : Takes 0 s t) (htu : Takes (-1) t u) : Takes (-1) s u := by
        simpa using hst.comp htu
      refine Returns.comp hcomp (takes_steady.returns_ask _) fun temp => ?_
      cases temp with
      | error e => exact returns_pathPut_pure none
      | ok temp => exact Returns.ite (returns_pathPut_pure none) (returns_pathPut_pure (some temp))
    · refine Returns.bind takes_steady.trans (takes_steady.returns_ask _) fun temp => ?_
      cases temp with
      | error e => exact hnone
      | ok temp => exact Returns.ite hnone (Returns.pure takes_steady.refl _)

theorem takes_findEntryByRegpathAlloc (registeredPath : Option CString) :
    Returns (Takes 0) (findEntryByRegpathAlloc env registeredPath) := by
  refine Returns.bind takes_steady.trans (takes_resolvePathAlloc env registeredPath _) fun solved => ?_
  cases solved with
  | none => exact Returns.pure takes_steady.refl _
  | some solved => exact takes_searchEntry env _ _ _

theorem takes_isEligible (id : PathIdentifier) : Returns (Takes 0) (isEligible env id) :=
  Returns.bind takes_steady.trans (takes_searchEntry env _ _ _) fun _ => Returns.pure takes_steady.refl _

theorem takes_verdict (id : PathIdentifier) : Returns (Takes 0) (verdict env id) :=
  Returns.bind takes_steady.trans (takes_isEligible env id) fun _ =>
    Returns.ite (Returns.pure takes_steady.refl _) (Returns.pure takes_steady.refl _)

theorem takes_absolutePath (dentry : δ) (flags : ℕ) :
    Moves (Takes 0) (absolutePath env dentry flags) := by
  have hnone : Moves (Takes 0) (pure none : K (Option CString)) := Moves.pure takes_steady.refl _
  have hextract : Moves (Takes 0) (extractPathFromDentry env dentry) := by
    refine Moves.bind takes_steady.trans (takes_steady.returns_ask _).moves fun buffer => ?_
    refine Moves.ite hnone (Moves.bind takes_steady.trans (takes_steady.returns_ask _).moves fun path => ?_)
    cases path with
    | error e => exact Moves.throw takes_steady.refl _
    | ok path => exact Moves.pure takes_steady.refl _
  refine Moves.bind takes_steady.trans hextract fun path => ?_
  cases path with
  | none => exact hnone
  | some path => exact (takes_resolvePathAlloc env _ _).moves

end Balanced

section Lookups

variable {δ : Type} (env : Env δ)

/-- The lookup of an inode number succeeds at this moment. -/
def Found (path : CString) (moment : ℕ) : Prop := ∃ dentry, env.kernPath moment path false = .ok dentry

/-- The lookup of an inode number keeps the reference that it takes. -/
theorem wp_extractInoNoFromPath_refs (path : CString) (k : Kernel) :
    wp (extractInoNoFromPath env path)
      (fun ino t => Found env path k.aux.clock ∧ Takes 1 k t ∨
        ¬ Found env path k.aux.clock ∧ ino = REFMON_NO_INO_NO ∧ Takes 0 k t)
      (fun _ _ => False) k := by
  rw [extractInoNoFromPath, wp_bind]
  unfold wp kernPath Found
  cases env.kernPath k.aux.clock path false with
  | error e => exact Or.inr ⟨by simp, rfl, takes_steady.refl k⟩
  | ok dentry => exact Or.inl ⟨⟨dentry, rfl⟩, rfl⟩

/-- A hook gets to the lookup of the inode number of a path, and finds it. -/
def DentryPins (dentry : δ) (k : Kernel) : Prop :=
  ∃ path t, absolutePath env dentry REFMON_FSUTILS_RESOLVE_LINKS k = .ok (some path) t ∧
    Found env path t.aux.clock

variable {env} {k : Kernel}

/-- The identification of a dentry takes a reference exactly for such a path. -/
theorem wp_identify_pins (dentry : δ) :
    wp (identify env dentry) (fun _ t => Pins (DentryPins env dentry k) k t)
      (fun _ t => Pins (DentryPins env dentry k) k t) k := by
  have hmoves := takes_absolutePath env dentry REFMON_FSUTILS_RESOLVE_LINKS
  unfold DentryPins
  rw [identify, wp_bind]
  apply wp_of_run
  · intro name t hname
    have htake := hmoves.ok hname
    cases name with
    | none => exact htake.not_pins (by simp [hname])
    | some path =>
      have hiff : (∃ path' t', absolutePath env dentry REFMON_FSUTILS_RESOLVE_LINKS k = .ok (some path') t' ∧
          Found env path' t'.aux.clock) ↔ Found env path t.aux.clock := by
        simp [hname]
      rw [hiff]
      dsimp only
      rw [wp_bind]
      refine wp_mono (wp_extractInoNoFromPath_refs env path t) ?_ fun _ _ hF => hF.elim
      rintro ino u (⟨hfound, hu⟩ | ⟨hmissing, -, hu⟩)
      · exact (htake.comp hu).pins (by omega) hfound
      · exact (htake.comp hu).not_pins hmissing
  · intro fault t hname
    exact (hmoves.error hname).not_pins (by simp [hname])

theorem wp_krpHookOpen_pins (dentry : δ) (fFlags : UInt32) :
    wp (krpHookOpen env dentry fFlags) (fun _ t => Pins (DentryPins env dentry k) k t)
      (fun _ t => Pins (DentryPins env dentry k) k t) k := by
  rw [krpHookOpen, wp_bind]
  refine wp_mono (wp_identify_pins dentry) ?_ fun _ _ h => h
  intro id t ht
  cases id with
  | none => exact ht
  | some id =>
    dsimp only
    split
    · exact wp_mono (takes_verdict env id t) (fun _ _ hu => ht.then hu) fun _ _ hF => hF.elim
    · exact ht

theorem wp_krpHookRm_pins (dentry : δ) :
    wp (krpHookRm env dentry) (fun _ t => Pins (DentryPins env dentry k) k t)
      (fun _ t => Pins (DentryPins env dentry k) k t) k := by
  rw [krpHookRm, wp_bind]
  refine wp_mono (wp_identify_pins dentry) ?_ fun _ _ h => h
  intro id t ht
  cases id with
  | none => exact ht
  | some id =>
    dsimp only
    split
    · exact ht
    · exact wp_mono (takes_verdict env id t) (fun _ _ hu => ht.then hu) fun _ _ hF => hF.elim

theorem takes_krpHookMkdir (dentry : δ) : Moves (Takes 0) (krpHookMkdir env dentry) := by
  refine Moves.bind takes_steady.trans (takes_absolutePath env dentry _) fun name => ?_
  cases name with
  | none => exact Moves.pure takes_steady.refl _
  | some name => exact (takes_verdict env _).moves

end Lookups

section Additions

variable {δ : Type} (env : Env δ)

/-- `_add_file` up to its first lookup of an inode number: its error, or the key and the resolved
path of the file. -/
def addFileUpTo (path : CString) : K (Except ℤ (CString × CString)) := do
  let buffer ← kmalloc env
  if buffer = false then pure (.error (-ENOMEM))
  else do
    match ← resolvePathAlloc env (some path) REFMON_FSUTILS_IGNORE_ABSOLUTE_PATHS with
    | none => pure (.error (-EINVAL))
    | some registeredPath => do
      let present ← findEntryByRegpathAlloc env (some registeredPath)
      if present.isSome then pure (.error (-EEXIST))
      else do
        let buffer ← kmalloc env
        if buffer = false then pure (.error (-ENOMEM))
        else do
          match ← resolvePathAlloc env (some path)
              (REFMON_FSUTILS_RESOLVE_LINKS ||| REFMON_FSUTILS_IGNORE_ABSOLUTE_PATHS) with
          | none => pure (.error (-EINVAL))
          | some resolvedPath => pure (.ok (registeredPath, resolvedPath))

/-- `_add_file` from there on. -/
def addFileFrom (path : CString) : Except ℤ (CString × CString) → K ℤ
  | .error ret => pure ret
  | .ok (registeredPath, resolvedPath) => do
    let inoRegistered ← extractInoNoFromPath env path
    if inoRegistered = REFMON_NO_INO_NO then pure (-EINVAL)
    else do
      let inoResolved ← extractInoNoFromPath env resolvedPath
      if inoResolved = REFMON_NO_INO_NO then pure (-EINVAL)
      else do
        let node ← kmalloc env
        if node = false then pure (-ENOMEM)
        else do
          put fun core => { core with theInstance := { core.theInstance with
            registry := core.theInstance.registry ++
              [⟨⟨registeredPath, inoRegistered⟩, ⟨resolvedPath, inoResolved⟩⟩] } }
          pure 0

theorem addFile_eq (path : CString) : addFile env path = addFileUpTo env path >>= addFileFrom env path := by
  unfold addFile addFileUpTo
  rw [bind_assoc]
  refine congrArg _ (funext fun buffer => ?_)
  split
  · rfl
  rw [bind_assoc]
  refine congrArg _ (funext fun registeredPath => ?_)
  cases registeredPath with
  | none => rfl
  | some registeredPath =>
    dsimp only
    rw [bind_assoc]
    refine congrArg _ (funext fun present => ?_)
    split
    · rfl
    rw [bind_assoc]
    refine congrArg _ (funext fun buffer => ?_)
    split
    · rfl
    rw [bind_assoc]
    refine congrArg _ (funext fun resolvedPath => ?_)
    cases resolvedPath <;> rfl

theorem takes_addFileUpTo (path : CString) : Returns (Takes 0) (addFileUpTo env path) := by
  have hpure (a : Except ℤ (CString × CString)) : Returns (Takes 0) (pure a : K _) :=
    Returns.pure takes_steady.refl a
  refine Returns.bind takes_steady.trans (takes_steady.returns_ask _) fun buffer => Returns.ite (hpure _) ?_
  refine Returns.bind takes_steady.trans (takes_resolvePathAlloc env _ _) fun registeredPath => ?_
  cases registeredPath with
  | none => exact hpure _
  | some registeredPath =>
    refine Returns.bind takes_steady.trans (takes_findEntryByRegpathAlloc env _) fun present =>
      Returns.ite (hpure _) ?_
    refine Returns.bind takes_steady.trans (takes_steady.returns_ask _) fun buffer => Returns.ite (hpure _) ?_
    refine Returns.bind takes_steady.trans (takes_resolvePathAlloc env _ _) fun resolvedPath => ?_
    cases resolvedPath with
    | none => exact hpure _
    | some resolvedPath => exact hpure _

/-- An addition gets to its first lookup of an inode number, and finds it. -/
def FilePins (path : CString) (k : Kernel) : Prop :=
  ∃ paths t, addFileUpTo env path k = .ok (.ok paths) t ∧ Found env path t.aux.clock

variable {env} {k : Kernel}

/-- The second lookup can only take another reference. -/
theorem wp_addFile_pins (path : CString) :
    wp (addFile env path) (fun _ t => Pins (FilePins env path k) k t) (fun _ _ => False) k := by
  rw [addFile_eq, wp_bind]
  apply wp_of_run
  · intro paths t hpaths
    have htake := (takes_addFileUpTo env path).moves.ok hpaths
    unfold FilePins
    cases paths with
    | error ret => exact htake.not_pins (by simp [hpaths])
    | ok paths =>
      obtain ⟨registeredPath, resolvedPath⟩ := paths
      have hiff : (∃ paths' t', addFileUpTo env path k = .ok (.ok paths') t' ∧
          Found env path t'.aux.clock) ↔ Found env path t.aux.clock := by
        simp [hpaths]
      rw [hiff, addFileFrom, wp_bind]
      refine wp_mono (wp_extractInoNoFromPath_refs env path t) ?_ fun _ _ hF => hF
      rintro inoRegistered u (⟨hfound, hu⟩ | ⟨hmissing, hino, hu⟩)
      · have hkept := htake.comp hu
        -- whatever follows keeps the first reference
        have hlast {n : ℤ} {v : Kernel} (hn : 0 < n) (hv : Takes n k v) (inoResolved : UInt64) :
            wp (do
              let node ← kmalloc env
              if node = false then pure (-ENOMEM)
              else do
                put fun core => { core with theInstance := { core.theInstance with
                  registry := core.theInstance.registry ++
                    [⟨⟨registeredPath, inoRegistered⟩, ⟨resolvedPath, inoResolved⟩⟩] } }
                pure 0) (fun _ x => Pins (Found env path t.aux.clock) k x) (fun _ _ => False) v := by
          rw [wp_bind, kmalloc, wp_ask_iff]
          split
          · have hticked : Takes n k v.tick := hv
            exact hticked.pins hn hfound
          · rw [wp_bind, wp_put, wp_pure]
            refine Takes.pins ?_ hn hfound
            exact hv
        split
        · exact hkept.pins (by omega) hfound
        · rw [wp_bind]
          refine wp_mono (wp_extractInoNoFromPath_refs env resolvedPath u) ?_ fun _ _ hF => hF
          rintro inoResolved v (⟨-, hv⟩ | ⟨-, -, hv⟩)
          · split
            · exact (hkept.comp hv).pins (by omega) hfound
            · exact hlast (by omega) (hkept.comp hv) inoResolved
          · split
            · exact (hkept.comp hv).pins (by omega) hfound
            · exact hlast (by omega) (hkept.comp hv) inoResolved
      · rw [if_pos hino]
        exact (htake.comp hu).not_pins hmissing
  · intro fault t hpaths
    have hreturns := wp_error (takes_addFileUpTo env path k) hpaths
    exact hreturns

variable (env k) in
/-- An addition to the registry passes its checks and gets to such a lookup. -/
def RequestPins (pathIn passwordIn : UserPtr) : Prop :=
  k.lock = false ∧ ∃ t m buffer path, safetyChecks env reconfChecks passwordIn k.locked = .ok 0 t ∧
    sanitizeUserInputAlloc env pathIn t = .ok (some buffer) m ∧ cstring buffer = some path ∧
    FilePins env path m

theorem takes_safetyChecks (passwordIn : UserPtr) :
    Moves (Takes 0) (safetyChecks env reconfChecks passwordIn) := by
  rw [safetyChecks_reconf]
  refine Moves.ite (Moves.pure takes_steady.refl _) ?_
  refine Moves.bind takes_steady.trans (takes_steady.returns_gets _).moves fun reconf => ?_
  exact Moves.ite (Moves.pure takes_steady.refl _) (takes_steady.moves_passwordCheck env passwordIn)

theorem wp_doReconfAdd_pins (pathIn passwordIn : UserPtr) :
    wp (doReconfAdd env pathIn passwordIn) (fun _ t => Pins (RequestPins env k pathIn passwordIn) k t)
      (fun _ t => Pins (RequestPins env k pathIn passwordIn) k t) k := by
  rw [doReconfAdd, wp_bind]
  apply wp_spinInstanceLock
  · intro hfree
    rw [wp_bind]
    apply wp_of_run
    · intro ret t hchecks
      have htake : Takes 0 k.locked t := (takes_safetyChecks passwordIn).ok hchecks
      have hlocked : Takes 0 k t := htake
      split
      · rename_i hret
        have hno : ¬ RequestPins env k pathIn passwordIn := by
          rintro ⟨-, t', m, buffer, path, hchecks', -⟩
          cases hchecks.symm.trans hchecks'
          exact hret rfl
        exact (hlocked.not_pins hno).unlocked
      · rename_i hret
        rw [not_not.mp hret] at hchecks
        rw [wp_bind]
        apply wp_of_run
        · intro out m hcopy
          have hcopied := hlocked.comp ((takes_steady.moves_sanitizeUserInputAlloc env pathIn).ok hcopy)
          cases out with
          | none =>
            have hno : ¬ RequestPins env k pathIn passwordIn := by
              rintro ⟨-, t', m', buffer, path, hchecks', hcopy', -⟩
              cases hchecks.symm.trans hchecks'
              cases hcopy.symm.trans hcopy'
            exact (hcopied.not_pins hno).unlocked
          | some buffer =>
            dsimp only
            rw [wp_bind, readBuffer]
            cases hstr : cstring buffer with
            | none =>
              have hno : ¬ RequestPins env k pathIn passwordIn := by
                rintro ⟨-, t', m', buffer', path, hchecks', hcopy', hstr', -⟩
                cases hchecks.symm.trans hchecks'
                cases hcopy.symm.trans hcopy'
                cases hstr.symm.trans hstr'
              exact hcopied.not_pins hno
            | some path =>
              have hiff : RequestPins env k pathIn passwordIn ↔ FilePins env path m := by
                constructor
                · rintro ⟨-, t', m', buffer', path', hchecks', hcopy', hstr', hpins⟩
                  cases hchecks.symm.trans hchecks'
                  cases hcopy.symm.trans hcopy'
                  cases hstr.symm.trans hstr'
                  exact hpins
                · intro hpins
                  exact ⟨hfree, t, m, buffer, path, hchecks, hcopy, hstr, hpins⟩
              rw [wp_pure, wp_bind]
              refine wp_mono (wp_addFile_pins path) ?_ fun _ _ hF => hF.elim
              intro added u hu
              have hpins : Pins (RequestPins env k pathIn passwordIn) k u := hcopied.pins_after hiff hu
              split
              · exact hpins.unlocked
              · exact hpins.unlocked
        · intro fault m hcopy
          have hno : ¬ RequestPins env k pathIn passwordIn := by
            rintro ⟨-, t', m', buffer, path, hchecks', hcopy', -⟩
            cases hchecks.symm.trans hchecks'
            cases hcopy.symm.trans hcopy'
          exact (hlocked.comp ((takes_steady.moves_sanitizeUserInputAlloc env pathIn).error hcopy)).not_pins hno
    · intro fault t hchecks
      have htake : Takes 0 k.locked t := (takes_safetyChecks passwordIn).error hchecks
      have hno : ¬ RequestPins env k pathIn passwordIn := by
        rintro ⟨-, t', m, buffer, path, hchecks', -⟩
        cases hchecks.symm.trans hchecks'
      exact Takes.not_pins htake hno
  · intro hheld
    refine (takes_steady.refl k).not_pins ?_
    rintro ⟨hfree, -⟩
    exact Bool.false_ne_true (hfree.symm.trans hheld)

end Additions

section OtherCalls

variable {δ : Type} (env : Env δ)

theorem takes_spinInstanceLock : Moves (Takes 0) spinInstanceLock := fun k =>
  wp_spinInstanceLock (fun _ => (add_zero k.aux.refs).symm) fun _ => takes_steady.refl k

theorem takes_put (change : Core → Core) : Moves (Takes 0) (put change) := fun k =>
  (add_zero k.aux.refs).symm

theorem takes_tail (ret : ℤ) : Moves (Takes 0) (tail ret) := fun k => (add_zero k.aux.refs).symm

theorem takes_doReconfRm (pathIn passwordIn : UserPtr) :
    Moves (Takes 0) (doReconfRm env pathIn passwordIn) := by
  refine Moves.bind takes_steady.trans takes_spinInstanceLock fun _ => ?_
  refine Moves.bind takes_steady.trans (takes_safetyChecks passwordIn) fun ret => ?_
  refine Moves.ite (takes_tail _) ?_
  refine Moves.bind takes_steady.trans (takes_steady.moves_sanitizeUserInputAlloc env pathIn) fun out => ?_
  cases out with
  | none => exact takes_tail _
  | some buffer =>
    refine Moves.bind takes_steady.trans (takes_steady.moves_readBuffer buffer) fun path => ?_
    refine Moves.bind takes_steady.trans (takes_resolvePathAlloc env _ _).moves fun key => ?_
    refine Moves.bind takes_steady.trans (takes_findEntryByRegpathAlloc env key).moves fun found => ?_
    cases found with
    | none => exact takes_tail _
    | some found => exact Moves.bind takes_steady.trans (takes_put _) fun _ => takes_tail _

theorem takes_doFlushRegistry (password : UserPtr) : Moves (Takes 0) (doFlushRegistry env password) := by
  refine Moves.bind takes_steady.trans takes_spinInstanceLock fun _ => ?_
  refine Moves.bind takes_steady.trans (takes_safetyChecks password) fun ret => ?_
  refine Moves.ite (takes_tail _) ?_
  refine Moves.bind takes_steady.trans (takes_steady.returns_gets _).moves fun registry => ?_
  exact Moves.ite (takes_tail _) (Moves.bind takes_steady.trans (takes_put _) fun _ => takes_tail _)

theorem takes_probingUpdate (desired : Bool) : Moves (Takes 0) (probingUpdate env desired) := fun k =>
  wp_of_ok (probingUpdate_eq desired k) (add_zero k.aux.refs).symm

theorem takes_doSetState (newState : UserPtr) : Moves (Takes 0) (doSetState env newState) := by
  have hset : Moves (Takes 0) (setState env newState) := by
    refine Moves.bind takes_steady.trans (takes_steady.moves_stringToState newState) fun state => ?_
    refine Moves.bind takes_steady.trans (takes_put _) fun _ => ?_
    refine Moves.bind takes_steady.trans (takes_steady.returns_gets _).moves fun on => ?_
    refine Moves.bind takes_steady.trans (takes_probingUpdate env on) fun ret => ?_
    exact Moves.ite (Moves.pure takes_steady.refl _) (Moves.pure takes_steady.refl _)
  refine Moves.bind takes_steady.trans takes_spinInstanceLock fun _ => ?_
  rw [safetyChecks_root, pure_bind]
  refine Moves.ite (takes_tail _) ?_
  refine Moves.bind takes_steady.trans (takes_steady.moves_isStateValid newState) fun valid => ?_
  refine Moves.ite (takes_tail _) ?_
  exact Moves.bind takes_steady.trans hset fun ret => Moves.ite (takes_tail _) (takes_tail _)

end OtherCalls

section Runs

variable {δ : Type}

/-- What the module is entered for: a system call, or a probed access. -/
inductive Entrance (δ : Type)
  | call (request : Call)
  | hookOpen (dentry : δ) (fFlags : UInt32)
  | hookRm (dentry : δ)
  | hookMkdir (dentry : δ)

/-- The code that is entered. -/
def Entrance.code (env : Env δ) : Entrance δ → K ℤ
  | .call request => request.handler env
  | .hookOpen dentry fFlags => krpHookOpen env dentry fFlags
  | .hookRm dentry => krpHookRm env dentry
  | .hookMkdir dentry => krpHookMkdir env dentry

/-- It gets to the lookup of an inode number, and the lookup succeeds. -/
def Entrance.Pins (env : Env δ) (k : Kernel) : Entrance δ → Prop
  | .call (.reconfAdd pathIn passwordIn) => RequestPins env k pathIn passwordIn
  | .hookOpen dentry _ => DentryPins env dentry k
  | .hookRm dentry => DentryPins env dentry k
  | _ => False

/-- An entrance and the kernel around it. -/
structure Entered (δ : Type) where
  env : Env δ
  entrance : Entrance δ

/-- The state that it leaves, however it ends. -/
def Entered.step (e : Entered δ) (k : Kernel) : Kernel := after (e.entrance.code e.env k)

/-- Some code takes nothing to keep, whatever it is asked. -/
theorem pins_false_of_takes {m : K ℤ} (h : Moves (Takes 0) m) (k : Kernel) :
    wp m (fun _ t => Refmon.Pins False k t) (fun _ t => Refmon.Pins False k t) k :=
  wp_mono (h k) (fun _ _ ht => ht.not_pins fun hF => hF) fun _ _ ht => ht.not_pins fun hF => hF

/-- A step takes references to keep exactly when a lookup of an inode number succeeds in it. -/
theorem step_pins (e : Entered δ) (k : Kernel) : Refmon.Pins (e.entrance.Pins e.env k) k (e.step k) := by
  apply wp_after
  obtain ⟨env, entrance⟩ := e
  cases entrance with
  | call request =>
    cases request with
    | setState newState => exact pins_false_of_takes (takes_doSetState env newState) k
    | reconfAdd pathIn passwordIn => exact wp_doReconfAdd_pins pathIn passwordIn
    | reconfRm pathIn passwordIn => exact pins_false_of_takes (takes_doReconfRm env pathIn passwordIn) k
    | flushRegistry password => exact pins_false_of_takes (takes_doFlushRegistry env password) k
  | hookOpen dentry fFlags => exact wp_krpHookOpen_pins dentry fFlags
  | hookRm dentry => exact wp_krpHookRm_pins dentry
  | hookMkdir dentry => exact pins_false_of_takes (takes_krpHookMkdir dentry) k

/-- The number of references is what it was in every state of a run exactly when no step of the run
gets to a lookup of an inode number that succeeds. -/
theorem references_balanced_iff (entered : List (Entered δ)) (k : Kernel) :
    (∀ first rest, entered = first ++ rest → (run Entered.step first k).aux.refs = k.aux.refs) ↔
      EveryStep Entered.step (fun e t => ¬ e.entrance.Pins e.env t) entered k := by
  have hrun := @run_eq_iff _ _ Entered.step (fun (e : Entered δ) t => ¬ e.entrance.Pins e.env t) _ _
    (fun t : Kernel => t.aux.refs) (fun e t => (step_pins e t).grows) fun e t => (step_pins e t).balanced
  constructor
  · intro h
    exact (hrun entered k).mp (h entered [] (List.append_nil _).symm)
  · rintro h first rest rfl
    exact (hrun first k).mpr ((everyStep_append _ _ _ _ _).mp h).1

/-- Opening the root directory for reading keeps a reference, and adding it to the registry two. -/
theorem references_pile_up :
    (Entered.step ⟨rootOnly.calm ciaoSha256, .hookOpen () O_RDONLY⟩ (bootedRecOn rootOnly)).aux.refs =
        (bootedRecOn rootOnly).aux.refs + 1 ∧
      returned ((rootAdd rootOnly (lit "/")).result (bootedRecOn rootOnly)) = some 0 ∧
      (Entered.step ⟨rootOnly.calm ciaoSha256, .call (rootAdd rootOnly (lit "/")).call⟩
        (bootedRecOn rootOnly)).aux.refs = (bootedRecOn rootOnly).aux.refs + 2 := by
  decide +kernel

end Runs

end Refmon
