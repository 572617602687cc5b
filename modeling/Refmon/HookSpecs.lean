import Refmon.NamespaceSpecs
import Refmon.ProbingHandlers

/-!
# What the hooks decide

In a namespace that stands still each hook has a closed form: a condition on the registry and
the dentry under which it denies the access. A failed allocation can only turn a denial into
`KRP_GO_AHEAD`.
-/

namespace Refmon

open Wp

/-- The paths of dentries begin at the root of their filesystem. -/
def Vfs.Absolute {δ : Type} (fs : Vfs δ) : Prop :=
  ∀ dentry path, fs.dentryPathRaw dentry = .ok path → isResolved path = true

/-- The identifier of a dentry, as the open and removal hooks compute it. -/
def Vfs.identify {δ : Type} (fs : Vfs δ) (dentry : δ) : Option PathIdentifier :=
  match fs.dentryPathRaw dentry with
  | .error _ => none
  | .ok path => (fs.resolve path).map fun out => ⟨out, fs.inoAt out⟩

/-- Some entry of the registry matches the identifier. -/
def Vfs.Eligible {δ : Type} (fs : Vfs δ) (registry : List RegistryEntry) (id : PathIdentifier) :
    Prop := ∃ node ∈ registry, fs.Matches node id

/-- The open hook denies. -/
def Vfs.DeniesOpen {δ : Type} (fs : Vfs δ) (registry : List RegistryEntry) (dentry : δ)
    (fFlags : UInt32) : Prop :=
  ∃ id, fs.identify dentry = some id ∧ isWriteAcc fFlags = true ∧ fs.Eligible registry id

/-- The removal hook denies. -/
def Vfs.DeniesRm {δ : Type} (fs : Vfs δ) (registry : List RegistryEntry) (dentry : δ) : Prop :=
  ∃ id, fs.identify dentry = some id ∧ id.inoNo ≠ REFMON_NO_INO_NO ∧ fs.Eligible registry id

/-- The directory hook denies. -/
def Vfs.DeniesMkdir {δ : Type} (fs : Vfs δ) (registry : List RegistryEntry) (dentry : δ) : Prop :=
  ∃ path, fs.dentryPathRaw dentry = .ok path ∧ fs.Eligible registry ⟨path, REFMON_NO_INO_NO⟩

/-- A hook's answer follows a condition, up to failed allocations. -/
structure Decides {δ : Type} (env : Env δ) (denies : Prop) (ret : ℤ) : Prop where
  sound : ret = KRP_TO_TAILHOOK → denies
  complete : env.Allocates → denies → ret = KRP_TO_TAILHOOK

/-- Going ahead is a decision when there is nothing to deny, or no memory to find out. -/
theorem decides_goAhead {δ : Type} {env : Env δ} {denies : Prop} (h : env.Allocates → ¬ denies) :
    Decides env denies KRP_GO_AHEAD :=
  ⟨fun hret => absurd hret (by decide), fun halloc hdenies => absurd hdenies (h halloc)⟩

variable {δ : Type} {env : Env δ} {fs : Vfs δ} {k : Kernel}

/-- An absolute path is not empty. -/
theorem ne_nil_of_isResolved {path : CString} (h : isResolved path = true) : path ≠ [] := by
  intro hnil
  subst hnil
  cases h

/-- Resolved paths are absolute. -/
theorem Vfs.Absolute.resolve (habs : fs.Absolute) {path out : CString} (h : fs.resolve path = some out) :
    isResolved out = true := by
  unfold Vfs.resolve at h
  cases hpath : fs.kernPath path true with
  | error e =>
    rw [hpath] at h
    cases h
  | ok dentry =>
    rw [hpath] at h
    dsimp only at h
    cases hraw : fs.dentryPathRaw dentry with
    | error e =>
      rw [hraw] at h
      cases h
    | ok raw =>
      rw [hraw] at h
      dsimp only at h
      split at h
      · cases h
      · rw [Option.some.injEq] at h
        subst h
        exact habs dentry raw hraw

/-- An identified dentry has an absolute path. -/
theorem Vfs.Absolute.identify (habs : fs.Absolute) {dentry : δ} {id : PathIdentifier}
    (h : fs.identify dentry = some id) : isResolved id.path = true := by
  unfold Vfs.identify at h
  cases hraw : fs.dentryPathRaw dentry with
  | error e =>
    rw [hraw] at h
    cases h
  | ok path =>
    rw [hraw] at h
    dsimp only at h
    rw [Option.map_eq_some_iff] at h
    obtain ⟨out, hout, hid⟩ := h
    subst hid
    exact habs.resolve hout

/-- The naming of a dentry has the properties that questions and a fault have. -/
theorem Querying.absolutePath {P : ∀ {α : Type}, K α → Prop} (h : Querying env P)
    (hthrow : P (throw .errPtrDeref : K (Option CString))) (dentry : δ) (flags : ℕ) :
    P (absolutePath env dentry flags) := by
  have hextract : P (extractPathFromDentry env dentry) := by
    refine h.bind (h.ask _) fun buffer => h.ite (h.pure _) (h.bind (h.ask _) fun path => ?_)
    cases path with
    | error e => exact hthrow
    | ok path => exact h.pure _
  refine h.bind hextract fun path => ?_
  cases path with
  | none => exact h.pure _
  | some path => exact h.resolvePathAlloc _ _

/-- So has its identification. -/
theorem Querying.identify {P : ∀ {α : Type}, K α → Prop} (h : Querying env P)
    (hthrow : P (throw .errPtrDeref : K (Option CString))) (dentry : δ) : P (identify env dentry) := by
  refine h.bind (h.absolutePath hthrow dentry _) fun path => ?_
  cases path with
  | none => exact h.pure _
  | some path =>
    refine h.bind (h.bind (h.kernPath path false) fun found => ?_) fun ino => h.pure _
    cases found with
    | error e => exact h.pure _
    | ok p => exact h.pure _

/-- Questions and faults change nothing that lasts. -/
theorem querying_moves : Querying env fun m => Moves Same m where
  pure _ := Moves.pure Same.refl _
  bind := Moves.bind Same.trans
  ask answer := (returns_ask answer).moves
  kernPath path follow := (returns_kernPath env path follow).moves
  pathPut := returns_pathPut.moves

theorem moves_absolutePath (dentry : δ) (flags : ℕ) : Moves Same (absolutePath env dentry flags) :=
  querying_moves.absolutePath (Moves.throw Same.refl _) dentry flags

theorem moves_identify (dentry : δ) : Moves Same (identify env dentry) :=
  querying_moves.identify (Moves.throw Same.refl _) dentry

/-- The path read from a dentry is its own, unless the allocation fails. -/
theorem wp_extractPathFromDentry (hsees : env.Sees fs) {dentry : δ} {path : CString}
    (hraw : fs.dentryPathRaw dentry = .ok path) :
    wp (extractPathFromDentry env dentry)
      (fun out t => (out = some path ∨ out = none ∧ ¬ env.Allocates) ∧ Same k t)
      (fun _ _ => False) k := by
  rw [extractPathFromDentry]
  apply wp_ask_else
  · intro t ht hfail
    exact ⟨Or.inr ⟨rfl, hfail⟩, ht⟩
  intro t ht
  rw [wp_bind]
  apply wp_ask
  intro u hu
  rw [hsees.dentryPathRaw, hraw]
  exact ⟨Or.inl rfl, Same.trans _ _ _ ht hu⟩

/-- A dentry whose path cannot be printed gives no path: the allocation fails first, or the error
pointer is dereferenced. -/
theorem wp_extractPathFromDentry_error (hsees : env.Sees fs) {dentry : δ} {e : ℤ}
    (hraw : fs.dentryPathRaw dentry = .error e) :
    wp (extractPathFromDentry env dentry) (fun out _ => out = none ∧ ¬ env.Allocates)
      (fun fault _ => fault = .errPtrDeref) k := by
  rw [extractPathFromDentry]
  apply wp_ask_else
  · intro t _ hfail
    exact ⟨rfl, hfail⟩
  intro t ht
  rw [wp_bind]
  apply wp_ask
  intro u hu
  rw [hsees.dentryPathRaw, hraw]
  exact rfl

/-- Nor is it identified. -/
theorem wp_identify_error (hsees : env.Sees fs) {dentry : δ} {e : ℤ}
    (hraw : fs.dentryPathRaw dentry = .error e) :
    wp (identify env dentry) (fun out _ => out = none ∧ ¬ env.Allocates)
      (fun fault _ => fault = .errPtrDeref) k := by
  rw [identify, absolutePath, wp_bind, wp_bind]
  apply wp_mono (wp_extractPathFromDentry_error hsees hraw) _ fun _ _ hF => hF
  intro out t ⟨hout, hfail⟩
  rw [hout]
  exact ⟨rfl, hfail⟩

/-- The identifier computed is the namespace's, unless an allocation fails. -/
theorem wp_identify (hsees : env.Sees fs) (habs : fs.Absolute) {dentry : δ} {path : CString}
    (hraw : fs.dentryPathRaw dentry = .ok path) :
    wp (identify env dentry)
      (fun out t => (out = fs.identify dentry ∨ out = none ∧ ¬ env.Allocates) ∧ Same k t)
      (fun _ _ => False) k := by
  have hid : fs.identify dentry = (fs.resolve path).map fun out => ⟨out, fs.inoAt out⟩ := by
    rw [Vfs.identify, hraw]
  have hne := ne_nil_of_isResolved (habs dentry path hraw)
  rw [identify, absolutePath, wp_bind, wp_bind]
  apply wp_mono (wp_extractPathFromDentry hsees hraw) _ fun _ _ hF => hF
  intro out t ⟨hout, ht⟩
  cases out with
  | none => exact ⟨Or.inr ⟨rfl, (hout.resolve_left (by simp)).2⟩, ht⟩
  | some out =>
    have heq : out = path := Option.some.inj (hout.resolve_right (by simp))
    subst heq
    apply wp_mono (wp_resolvePathAlloc_links hsees rfl (fun h => absurd h.1 (by decide)) hne) _
      fun _ _ hF => hF
    intro resolved u ⟨hresolved, hu⟩
    have ku := Same.trans _ _ _ ht hu
    cases resolved with
    | none =>
      apply And.intro _ ku
      apply hresolved.imp _ fun h => ⟨rfl, h.2⟩
      intro hnone
      rw [hid, ← hnone, Option.map_none]
    | some resolved =>
      have hsome := hresolved.resolve_right (by simp)
      dsimp only
      rw [wp_bind]
      apply wp_mono (wp_extractInoNoFromPath hsees resolved) _ fun _ _ hF => hF
      intro ino v ⟨hino, hv⟩
      apply And.intro _ (Same.trans _ _ _ ku hv)
      left
      rw [hid, ← hsome, hino, Option.map_some]

/-- The verdict on an identifier with a path is a denial exactly when it is eligible. -/
theorem wp_verdict (hsees : env.Sees fs) {id : PathIdentifier} (hne : id.path ≠ []) :
    wp (verdict env id)
      (fun ret t => (ret = KRP_TO_TAILHOOK ↔ fs.Eligible k.core.theInstance.registry id) ∧ Same k t)
      (fun _ _ => False) k := by
  rw [verdict, wp_bind]
  apply wp_mono (wp_isEligible hsees hne) _ fun _ _ hF => hF
  intro found t ⟨hfound, ht⟩
  cases found with
  | true => exact ⟨iff_of_true rfl (hfound.mp rfl), ht⟩
  | false => exact ⟨iff_of_false (by decide) (fun h => absurd (hfound.mpr h) (by decide)), ht⟩

/-- The part that the open and removal hooks share: a dentry that has an identifier is judged
when the identifier passes the hook's own test. -/
theorem wp_identify_verdict (hsees : env.Sees fs) (habs : fs.Absolute) {dentry : δ} {path : CString}
    (hraw : fs.dentryPathRaw dentry = .ok path) (test : PathIdentifier → Prop) [DecidablePred test] :
    wp (do
      match ← identify env dentry with
      | none => pure KRP_GO_AHEAD
      | some id => if test id then verdict env id else pure KRP_GO_AHEAD)
      (fun ret t => Decides env (∃ id, fs.identify dentry = some id ∧ test id ∧
        fs.Eligible k.core.theInstance.registry id) ret ∧ Same k t)
      (fun _ _ => False) k := by
  rw [wp_bind]
  apply wp_mono (wp_identify hsees habs hraw) _ fun _ _ hF => hF
  intro out t ⟨hout, ht⟩
  cases out with
  | none =>
    apply And.intro _ ht
    apply decides_goAhead
    intro halloc ⟨id, hid, _⟩
    have hnone := hout.resolve_right fun h => h.2 halloc
    rw [hid] at hnone
    cases hnone
  | some id =>
    have hid := (hout.resolve_right (by simp)).symm
    dsimp only
    by_cases htest : test id
    · rw [if_pos htest]
      apply wp_mono (wp_verdict hsees (ne_nil_of_isResolved (habs.identify hid))) _ fun _ _ hF => hF
      intro ret u ⟨hret, hu⟩
      rw [ht.core] at hret
      apply And.intro _ (Same.trans _ _ _ ht hu)
      constructor
      · intro htail
        exact ⟨id, hid, htest, hret.mp htail⟩
      · intro _ ⟨id', hid', _, heligible⟩
        rw [hid, Option.some.injEq] at hid'
        subst hid'
        exact hret.mpr heligible
    · rw [if_neg htest]
      apply And.intro _ ht
      apply decides_goAhead
      intro _ ⟨id', hid', htest', _⟩
      rw [hid, Option.some.injEq] at hid'
      subst hid'
      exact htest htest'

/-- The open hook decides by `DeniesOpen`. -/
theorem wp_krpHookOpen (hsees : env.Sees fs) (habs : fs.Absolute) {dentry : δ} {path : CString}
    (hraw : fs.dentryPathRaw dentry = .ok path) (fFlags : UInt32) :
    wp (krpHookOpen env dentry fFlags)
      (fun ret t => Decides env (fs.DeniesOpen k.core.theInstance.registry dentry fFlags) ret ∧ Same k t)
      (fun _ _ => False) k :=
  wp_identify_verdict hsees habs hraw fun _ => isWriteAcc fFlags = true

/-- The removal hook decides by `DeniesRm`. -/
theorem wp_krpHookRm (hsees : env.Sees fs) (habs : fs.Absolute) {dentry : δ} {path : CString}
    (hraw : fs.dentryPathRaw dentry = .ok path) :
    wp (krpHookRm env dentry)
      (fun ret t => Decides env (fs.DeniesRm k.core.theInstance.registry dentry) ret ∧ Same k t)
      (fun _ _ => False) k := by
  have h := wp_identify_verdict (k := k) hsees habs hraw fun id => id.inoNo ≠ REFMON_NO_INO_NO
  simp only [ite_not] at h
  exact h

/-- The directory hook decides by `DeniesMkdir`. -/
theorem wp_krpHookMkdir (hsees : env.Sees fs) (habs : fs.Absolute) {dentry : δ} {path : CString}
    (hraw : fs.dentryPathRaw dentry = .ok path) :
    wp (krpHookMkdir env dentry)
      (fun ret t => Decides env (fs.DeniesMkdir k.core.theInstance.registry dentry) ret ∧ Same k t)
      (fun _ _ => False) k := by
  have hpath := habs dentry path hraw
  rw [krpHookMkdir, absolutePath, wp_bind, wp_bind]
  apply wp_mono (wp_extractPathFromDentry hsees hraw) _ fun _ _ hF => hF
  intro out t ⟨hout, ht⟩
  have hgoAhead {u : Kernel} (hu : Same k u) (hfail : ¬ env.Allocates) :
      Decides env (fs.DeniesMkdir k.core.theInstance.registry dentry) KRP_GO_AHEAD ∧ Same k u :=
    ⟨decides_goAhead fun halloc => absurd halloc hfail, hu⟩
  cases out with
  | none => exact hgoAhead ht (hout.resolve_left (by simp)).2
  | some out =>
    have heq : out = path := Option.some.inj (hout.resolve_right (by simp))
    subst heq
    apply wp_mono (wp_resolvePathAlloc_absolute rfl hpath) _ fun _ _ hF => hF
    intro resolved u ⟨hresolved, hu⟩
    have ku := Same.trans _ _ _ ht hu
    cases resolved with
    | none => exact hgoAhead ku (hresolved.resolve_left (by simp)).2
    | some resolved =>
      have hsame : resolved = out := Option.some.inj (hresolved.resolve_right (by simp))
      subst hsame
      apply wp_mono (wp_verdict hsees (ne_nil_of_isResolved hpath)) _ fun _ _ hF => hF
      intro ret v ⟨hret, hv⟩
      rw [ku.core] at hret
      apply And.intro _ (Same.trans _ _ _ ku hv)
      constructor
      · intro htail
        exact ⟨resolved, hraw, hret.mp htail⟩
      · intro _ ⟨path', hraw', heligible⟩
        rw [hraw, Except.ok.injEq] at hraw'
        subst hraw'
        exact hret.mpr heligible

/-- What a hook that decides by a condition returns. -/
theorem returned_iff_of_decides {hook : K ℤ} {denies : Prop}
    (h : wp hook (fun ret t => Decides env denies ret ∧ Same k t) (fun _ _ => False) k) :
    (env.Allocates → denies → returned (hook k) = some KRP_TO_TAILHOOK) ∧
      (returned (hook k) = some KRP_TO_TAILHOOK → denies) := by
  obtain ⟨ret, t, hrun, hdecides, _⟩ := wp_returns h
  rw [hrun, returned, Option.some.injEq]
  exact ⟨hdecides.complete, hdecides.sound⟩

end Refmon
