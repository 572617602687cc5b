import Refmon.Calls

/-!
# Who can change what

Only an authorised reconfiguration changes the registry, only root changes the state or the
probes, and nobody changes the password. Over a run the registry is therefore frozen as long
as the state is `OFF` or `ON`.
-/

namespace Refmon

open Wp Runs

variable {δ : Type} {sha256 : List UInt8 → Digest}

/-- A reconfiguration call keeps the rest of the instance and the probes. -/
theorem Reconfigured.frame {env : Env δ} {password : UserPtr} {k t : Kernel}
    {change : List RegistryEntry → Prop} (h : Reconfigured env password k t change) :
    t.core.theInstance.state = k.core.theInstance.state ∧ t.core.enabled = k.core.enabled ∧
      t.core.theInstance.password = k.core.theInstance.password := by
  obtain ⟨registry, -, hcore⟩ := h.registry
  rw [hcore]
  exact ⟨rfl, rfl, rfl⟩

/-- A call other than `do_set_state` that makes its change is a reconfiguration call. -/
theorem Event.Changes.reconfigured {e : Event δ} {k t : Kernel} (h : e.Changes k t) :
    (∃ newState, e.call = .setState newState) ∨
      ∃ change, Reconfigured e.env e.call.password k t change := by
  obtain ⟨env, call⟩ := e
  cases call with
  | setState newState => exact Or.inl ⟨newState, rfl⟩
  | reconfAdd pathIn passwordIn => exact Or.inr ⟨_, h⟩
  | reconfRm pathIn passwordIn => exact Or.inr ⟨_, h⟩
  | flushRegistry password => exact Or.inr ⟨_, h⟩

/-- `do_set_state` is made by root and keeps the registry and the password. -/
theorem Event.Changes.setState {e : Event δ} {k t : Kernel} {newState : UserPtr}
    (h : e.Changes k t) (hcall : e.call = .setState newState) :
    e.env.euid = GLOBAL_ROOT_UID ∧ t.core.theInstance.registry = k.core.theInstance.registry ∧
      t.core.theInstance.password = k.core.theInstance.password := by
  obtain ⟨env, call⟩ := e
  cases hcall
  obtain ⟨hroot, _, _, _, _, _, _, hcore⟩ := h
  rw [hcore]
  exact ⟨hroot, rfl, rfl⟩

/-- No step changes the password. -/
theorem step_password (e : Event δ) (k : Kernel) :
    (step e k).core.theInstance.password = k.core.theInstance.password := by
  rcases step_cases e k with hcore | ⟨-, hchanges⟩
  · rw [hcore]
  · rcases hchanges.reconfigured with ⟨newState, hcall⟩ | ⟨change, hreconf⟩
    · exact (hchanges.setState hcall).2.2
    · exact hreconf.frame.2.2

/-- No step touches the system-call table, or what was registered and created. -/
theorem step_frame (e : Event δ) (k : Kernel) :
    (step e k).core.syscalls = k.core.syscalls ∧ (step e k).core.registered = k.core.registered ∧
      (step e k).core.created = k.core.created := by
  rcases step_cases e k with hcore | ⟨-, hchanges⟩
  · rw [hcore]
    exact ⟨rfl, rfl, rfl⟩
  obtain ⟨env, call⟩ := e
  cases call with
  | setState newState =>
    obtain ⟨_, _, _, _, _, _, _, hcore⟩ := hchanges
    rw [hcore]
    exact ⟨rfl, rfl, rfl⟩
  | reconfAdd pathIn passwordIn =>
    obtain ⟨_, _, hcore⟩ := hchanges.registry
    rw [hcore]
    exact ⟨rfl, rfl, rfl⟩
  | reconfRm pathIn passwordIn =>
    obtain ⟨_, _, hcore⟩ := hchanges.registry
    rw [hcore]
    exact ⟨rfl, rfl, rfl⟩
  | flushRegistry password =>
    obtain ⟨_, _, hcore⟩ := hchanges.registry
    rw [hcore]
    exact ⟨rfl, rfl, rfl⟩

/-- The default password's digest is behind the stored password in every reachable state. -/
theorem Reachable.password {k : Kernel} (hk : Reachable δ sha256 k) :
    k.core.theInstance.PasswordIs (sha256 REFMON_DEFAULT_PASSWORD.bytes) := by
  apply Reach.invariant hk
  · intro t ht
    rw [TheInstance.PasswordIs, ht.loaded.2.1]
  · intro e t _ ht
    exact (step_password e t).trans ht

/-- A step changes the registry only in a reconfigurable state. -/
theorem step_registry_of_not_reconf (e : Event δ) (k : Kernel)
    (h : isReconf k.core.theInstance = false) :
    (step e k).core.theInstance.registry = k.core.theInstance.registry := by
  rcases step_cases e k with hcore | ⟨-, hchanges⟩
  · rw [hcore]
  · rcases hchanges.reconfigured with ⟨newState, hcall⟩ | ⟨change, hreconf⟩
    · exact (hchanges.setState hcall).2.1
    · exact absurd (h.symm.trans hreconf.reconf) Bool.false_ne_true

/-- An entry after a call was there before, or it is the one that the call has added. -/
theorem entry_cases {e : Event δ} {k : Kernel} {entry : RegistryEntry}
    (h : entry ∈ (step e k).core.theInstance.registry) :
    entry ∈ k.core.theInstance.registry ∨
      ∃ pathIn passwordIn path, e.call = .reconfAdd pathIn passwordIn ∧ e.result k = .ok 0 (step e k) ∧
        Added e.env k.core.theInstance.registry path entry ∧
        (step e k).core.theInstance.registry = k.core.theInstance.registry ++ [entry] := by
  rcases step_cases e k with hcore | ⟨hresult, hchanges⟩
  · left
    rwa [hcore] at h
  obtain ⟨env, call⟩ := e
  cases call with
  | setState newState =>
    left
    rwa [(hchanges.setState rfl).2.1] at h
  | reconfAdd pathIn passwordIn =>
    obtain ⟨registry, ⟨path, new, _, hadded, hnew⟩, hcore⟩ := Reconfigured.registry hchanges
    have happended : (step ⟨env, .reconfAdd pathIn passwordIn⟩ k).core.theInstance.registry =
        k.core.theInstance.registry ++ [new] := by
      rw [hcore]
      exact hnew
    rw [happended, List.mem_append, List.mem_singleton] at h
    rcases h with hbefore | heq
    · exact Or.inl hbefore
    · subst heq
      exact Or.inr ⟨pathIn, passwordIn, path, rfl, hresult, hadded, happended⟩
  | reconfRm pathIn passwordIn =>
    left
    obtain ⟨registry, ⟨_, found, _, _, _, hnew⟩, hcore⟩ := Reconfigured.registry hchanges
    rw [hcore] at h
    have hkept : entry ∈ k.core.theInstance.registry.erase found := hnew ▸ h
    exact List.mem_of_mem_erase hkept
  | flushRegistry password =>
    obtain ⟨registry, hnew, hcore⟩ := Reconfigured.registry hchanges
    rw [hcore] at h
    have hnone : entry ∈ ([] : List RegistryEntry) := hnew ▸ h
    cases hnone

/-- `is_reconf` tests for the two reconfigurable states. -/
theorem isReconf_iff (inst : TheInstance) :
    isReconf inst = true ↔ inst.state = .REC_OFF ∨ inst.state = .REC_ON := by
  simp [isReconf]

/-- A registry is frozen along a run whose states are all `OFF` or `ON`. -/
theorem run_registry_frozen (events : List (Event δ)) (k : Kernel)
    (h : EveryStep step (fun _ t => t.core.theInstance.state = .OFF ∨ t.core.theInstance.state = .ON)
      events k) :
    (run step events k).core.theInstance.registry = k.core.theInstance.registry := by
  have hkeep (e : Event δ) (t : Kernel)
      (hstate : t.core.theInstance.state = .OFF ∨ t.core.theInstance.state = .ON)
      (ht : t.core.theInstance.registry = k.core.theInstance.registry) :
      (step e t).core.theInstance.registry = k.core.theInstance.registry := by
    rw [step_registry_of_not_reconf e t, ht]
    rcases hstate with hoff | hon
    · rw [isReconf, hoff]
      rfl
    · rw [isReconf, hon]
      rfl
  exact run_invariant step (I := fun t => t.core.theInstance.registry = k.core.theInstance.registry)
    hkeep h rfl

/-- In every reachable state, a call made while nobody writes to its password argument changes
the registry only for an authorised caller, and the state or the probes only for root; it never
changes the password. Over every run, the registry is frozen while the state is `OFF` or `ON`. -/
theorem calls_authorised {k : Kernel} (hk : Reachable δ sha256 k) :
    (∀ e : Event δ, e.env.sha256 = sha256 → e.call.password.Stable →
      ((step e k).core.theInstance.registry ≠ k.core.theInstance.registry →
        e.env.euid = GLOBAL_ROOT_UID ∧
          (k.core.theInstance.state = .REC_OFF ∨ k.core.theInstance.state = .REC_ON) ∧
          ∃ supplied digest, PointsTo e.call.password supplied ∧
            k.core.theInstance.PasswordIs digest ∧ sha256 supplied.bytes = digest) ∧
      ((step e k).core.theInstance.state ≠ k.core.theInstance.state ∨
          (step e k).core.enabled ≠ k.core.enabled → e.env.euid = GLOBAL_ROOT_UID) ∧
      (step e k).core.theInstance.password = k.core.theInstance.password) ∧
    ∀ events : List (Event δ),
      EveryStep step (fun _ t => t.core.theInstance.state = .OFF ∨ t.core.theInstance.state = .ON)
        events k →
      (run step events k).core.theInstance.registry = k.core.theInstance.registry := by
  apply And.intro _ fun events h => run_registry_frozen events k h
  intro e hsha hstable
  apply And.intro _ (And.intro _ (step_password e k))
  · intro hchanged
    rcases step_cases e k with hcore | ⟨-, hchanges⟩
    · exact absurd (by rw [hcore]) hchanged
    · rcases hchanges.reconfigured with ⟨newState, hcall⟩ | ⟨change, hreconf⟩
      · exact absurd (hchanges.setState hcall).2.1 hchanged
      · obtain ⟨supplied, hpoints, hdigest⟩ := (hreconf.authorised hstable).password
        rw [hsha] at hdigest
        exact ⟨hreconf.root, (isReconf_iff _).mp hreconf.reconf, supplied, _, hpoints,
          hk.password, hdigest.unique hk.password⟩
  · intro hchanged
    rcases step_cases e k with hcore | ⟨-, hchanges⟩
    · rw [hcore] at hchanged
      exact absurd hchanged (by simp)
    · rcases hchanges.reconfigured with ⟨newState, hcall⟩ | ⟨change, hreconf⟩
      · exact (hchanges.setState hcall).1
      · exact hreconf.root

/-- The module loaded where only the root directory exists. -/
theorem booted_rootOnly : Booted Unit ciaoSha256 (booted rootOnly) :=
  booted_of_returned (by decide +kernel)

theorem reachable_rootOnly : Reachable Unit ciaoSha256 (bootedRecOn rootOnly) :=
  (Reach.start booted_rootOnly).next _ ⟨rfl, trivial⟩

/-- The theorem on authorisation at the addition of the root directory. -/
theorem calls_authorised_addRoot :
    (step (rootAdd rootOnly (lit "/")) (bootedRecOn rootOnly)).core.theInstance.registry ≠
        (bootedRecOn rootOnly).core.theInstance.registry ∧
      ∃ supplied digest, PointsTo (userString REFMON_DEFAULT_PASSWORD) supplied ∧
        (bootedRecOn rootOnly).core.theInstance.PasswordIs digest ∧
        ciaoSha256 supplied.bytes = digest := by
  have hchanged :
      (step (rootAdd rootOnly (lit "/")) (bootedRecOn rootOnly)).core.theInstance.registry ≠
        (bootedRecOn rootOnly).core.theInstance.registry := by decide +kernel
  have hauth := (calls_authorised reachable_rootOnly).1 (rootAdd rootOnly (lit "/")) rfl
    (userString_stable _)
  exact ⟨hchanged, (hauth.1 hchanged).2.2⟩

end Refmon
