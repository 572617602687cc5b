import Refmon.Load
import Mathlib.Data.List.GetD

/-!
# What loading leaves behind

Each set-up function is described by the state it leaves; the descriptions are composed along
`init_module`. A successful load leaves the instance off, with an empty registry and five
registered probes that are disabled.
-/

namespace Refmon

open Wp

section Stores

variable (restore : Fin HACKED_ENTRIES → ℤ) (words : ℤ → UInt64)

/-- The stores leave the words at other indices alone. -/
theorem storeEach_of_ne (value : Fin HACKED_ENTRIES → UInt64) (n : ℤ) (h : ∀ i, restore i ≠ n) :
    storeEach restore value words n = words n := by
  unfold storeEach
  induction List.finRange HACKED_ENTRIES generalizing words with
  | nil => rfl
  | cons i indices ih =>
    rw [List.foldl_cons, ih]
    exact Function.update_of_ne (h i).symm _ _

/-- Stores of one value leave it at every index. -/
theorem storeEach_const (value : UInt64) (i : Fin HACKED_ENTRIES) :
    storeEach restore (fun _ => value) words (restore i) = value := by
  have hfold (indices : List (Fin HACKED_ENTRIES)) (words : ℤ → UInt64)
      (h : i ∈ indices ∨ words (restore i) = value) :
      indices.foldl (fun words i => Function.update words (restore i) value) words (restore i) =
        value := by
    induction indices generalizing words with
    | nil => exact h.resolve_left List.not_mem_nil
    | cons j indices ih =>
      apply ih
      dsimp only
      by_cases hj : restore i = restore j
      · right
        rw [hj]
        exact Function.update_self _ _ _
      · rw [Function.update_of_ne hj]
        apply h.imp_left
        intro hi
        exact (List.mem_cons.mp hi).resolve_left fun heq => hj (congrArg restore heq)
  exact hfold _ words (Or.inl (List.mem_finRange i))

/-- Entries that hold the address that is put back can be restored after any stores. -/
theorem storeEach_restores (value : Fin HACKED_ENTRIES → UInt64) (niSyscall : UInt64)
    (h : ∀ i, words (restore i) = niSyscall) :
    storeEach restore (fun _ => niSyscall) (storeEach restore value words) = words := by
  funext n
  by_cases hn : ∃ i, restore i = n
  · obtain ⟨i, rfl⟩ := hn
    rw [storeEach_const, h]
  · have hne : ∀ i, restore i ≠ n := fun i heq => hn ⟨i, heq⟩
    rw [storeEach_of_ne _ _ _ _ hne, storeEach_of_ne _ _ _ _ hne]

/-- Putting `the_ni_syscall` back at the indices of `now` gives the words of `before`. -/
def Restorable (before now : SyscallArea) : Prop :=
  storeEach now.restore (fun _ => now.theNiSyscall) now.words = before.words

end Stores

section Stages

variable {δ : Type} (env : Env δ) (k : Kernel)

/-- Creating proc files goes through the list up to the first failure. -/
theorem createProcfiles_eq (files : List ProcFile) :
    ∃ ret done, createProcfiles env files k = .ok ret
        { k with core := { k.core with created := k.core.created ++ done.map .proc } } ∧
      done <+: files ∧ (ret = 0 ↔ done = files) := by
  induction files generalizing k with
  | nil => exact ⟨0, [], by simp [createProcfiles, pure, EStateM.pure], List.nil_prefix, by simp⟩
  | cons file rest ih =>
    rw [createProcfiles]
    cases hfile : env.procCreate file with
    | false =>
      exact ⟨-EINVAL, [], by simp [pure, EStateM.pure], List.nil_prefix, by simp [EINVAL]⟩
    | true =>
      obtain ⟨ret, done, hrun, hinit, hret⟩ :=
        ih { k with core := { k.core with created := k.core.created ++ [.proc file] } }
      refine ⟨ret, file :: done, ?_, List.cons_prefix_cons.mpr ⟨rfl, hinit⟩, by simp [hret]⟩
      simp [bind, EStateM.bind, put, hrun]

/-- Registering probes goes through the list up to the first failure. -/
theorem registerProbes_eq (list : List Probe) :
    ∃ ret done, registerProbes env list k = .ok ret
        { k with core := { k.core with
          registered := fun probe => k.core.registered probe || decide (probe ∈ done),
          created := k.core.created ++ done.map .kretprobe } } ∧
      done <+: list ∧ (ret = 0 ↔ done = list) := by
  induction list generalizing k with
  | nil => exact ⟨0, [], by simp [registerProbes, pure, EStateM.pure], List.nil_prefix, by simp⟩
  | cons probe rest ih =>
    rw [registerProbes]
    by_cases hneg : env.registerKretprobe probe < 0
    · refine ⟨env.registerKretprobe probe, [], ?_, List.nil_prefix, ?_⟩
      · simp [hneg, pure, EStateM.pure]
      · simp [hneg.ne]
    · obtain ⟨ret, done, hrun, hinit, hret⟩ := ih { k with core := { k.core with
        registered := Function.update k.core.registered probe true,
        created := k.core.created ++ [.kretprobe probe] } }
      refine ⟨ret, probe :: done, ?_, List.cons_prefix_cons.mpr ⟨rfl, hinit⟩, by simp [hret]⟩
      simp only [hneg, if_false, bind, EStateM.bind, put, hrun]
      congr 3
      · funext p
        by_cases hp : p = probe
        · simp [hp]
        · simp [hp, Function.update_of_ne]
      · simp

/-- `init_syscalls` fails without an effect, or takes over entries that can be restored. -/
theorem initSyscalls_eq :
    (∃ ret, ret ≠ 0 ∧ initSyscalls env k = .ok ret k) ∨
      ∃ area, initSyscalls env k = .ok 0 { k with core := { k.core with syscalls := area } } ∧
        Restorable k.core.syscalls area ∧ ∀ i, 0 ≤ area.restore i := by
  by_cases htable : k.core.syscalls.theSyscallTable = 0
  · exact Or.inl ⟨-1, by decide, by simp [initSyscalls, bind, EStateM.bind, gets, htable, pure, EStateM.pure]⟩
  have hcases := getEntries_cases HACKED_ENTRIES fun i => k.core.syscalls.words i
  rcases hcases with hnone | ⟨ids, ni, hsome, hlen, hids⟩
  · refine Or.inl ⟨-1, by decide, ?_⟩
    simp only [initSyscalls, bind, EStateM.bind, gets, htable, if_false, hnone]
    rfl
  · right
    let restore (i : Fin HACKED_ENTRIES) : ℤ := (ids.getD i 0 : ℕ)
    have hni (i : Fin HACKED_ENTRIES) : k.core.syscalls.words (restore i) = ni := by
      have hi : i.val < ids.length := by
        have hfour : ids.length = HACKED_ENTRIES := by exact_mod_cast hlen
        rw [hfour]
        exact i.isLt
      apply hids
      rw [List.getD_eq_getElem _ _ hi]
      exact List.getElem_mem hi
    refine ⟨⟨k.core.syscalls.theSyscallTable, storeEach restore env.newSysCallArray k.core.syscalls.words,
      restore, ni, ⟨restore 0, restore 1, restore 2, restore 3⟩⟩, ?_, ?_, ?_⟩
    · simp only [initSyscalls, bind, EStateM.bind, gets, htable, if_false, hsome]
      rfl
    · exact storeEach_restores restore _ _ _ hni
    · intro i
      exact Int.natCast_nonneg _

/-- `hashgen_str` of the default password, kept or given up. -/
theorem wp_initPassword :
    wp (initPassword env)
      (fun ret t => (ret = 0 ∧ t.core = { k.core with theInstance := { k.core.theInstance with
          password := some (hexconv (env.sha256 REFMON_DEFAULT_PASSWORD.bytes)) } } ∨
        ret ≠ 0 ∧ t.core = k.core) ∧ t.lock = k.lock)
      (fun _ _ => True) k := by
  rw [initPassword, wp_bind]
  apply wp_mono (wp_hashgenStr REFMON_DEFAULT_PASSWORD) _ fun _ _ _ => trivial
  intro enc t ⟨henc, ht⟩
  rcases henc with rfl | ⟨rfl, -⟩
  · exact ⟨Or.inl ⟨rfl, by rw [← ht.core]⟩, ht.lock⟩
  · exact ⟨Or.inr ⟨by decide, ht.core⟩, ht.lock⟩

end Stages

section Whole

/-- The module as it is inserted: nothing created, nothing taken over, the lock free, and the
initial values of the variables of `syscalls.c`. -/
structure Fresh (k : Kernel) : Prop where
  lock : k.lock = false
  registered : ∀ probe, k.core.registered probe = false
  enabled : ∀ probe, k.core.enabled probe = false
  created : k.core.created = []
  removed : k.core.removed = []
  restore : ∀ i, k.core.syscalls.restore i = -1
  theNiSyscall : k.core.syscalls.theNiSyscall = 0

/-- How far an unfinished load has come: it removed nothing, it never created the last
probe, and it left the table alone or can restore it. -/
structure Unfinished (k m : Kernel) : Prop where
  removed : m.core.removed = k.core.removed
  created : k.core.created = [] → .kretprobe .vfsRmdir ∉ m.core.created
  syscalls : m.core.syscalls = k.core.syscalls ∨
    Restorable k.core.syscalls m.core.syscalls ∧ ∀ i, 0 ≤ m.core.syscalls.restore i

/-- What a successful load leaves. -/
structure Loaded {δ : Type} (env : Env δ) (k t : Kernel) : Prop where
  lock : t.lock = k.lock
  theInstance : t.core.theInstance =
    ⟨.OFF, [], some (hexconv (env.sha256 REFMON_DEFAULT_PASSWORD.bytes))⟩
  registered : ∀ probe, t.core.registered probe = true
  enabled : t.core.enabled = k.core.enabled
  syscalls : Restorable k.core.syscalls t.core.syscalls

variable {δ : Type} (env : Env δ) (k : Kernel)

/-- The abort path cleans up after the stage it is reached from. -/
theorem abort_eq (ret : ℤ) (m : Kernel) :
    abort ret m = .ok ret { m with core := { m.core with
      registered := fun _ => false,
      enabled := fun _ => false,
      syscalls := m.core.syscalls.storeEach fun _ => m.core.syscalls.theNiSyscall,
      removed := m.core.removed ++ procFiles.map .proc ++ probes.map .kretprobe } } := rfl

/-- Registering fewer than all probes leaves the last one out. -/
theorem proper_prefix_probes {done : List Probe} (hinit : done <+: probes) (hne : done ≠ probes) :
    Probe.vfsRmdir ∉ done := by
  obtain ⟨rest, hrest⟩ := hinit
  intro hmem
  have hcount : (done ++ rest).count .vfsRmdir = 1 := by rw [hrest]; rfl
  have hlast : (done ++ rest).getLast? = some .vfsRmdir := by rw [hrest]; rfl
  rcases List.eq_nil_or_concat rest with rfl | ⟨front, last, rfl⟩
  · exact hne (by simpa using hrest)
  · have heq : last = .vfsRmdir := by simpa using hlast
    subst heq
    have hpos := List.count_pos_iff.mpr hmem
    simp only [List.concat_eq_append, List.count_append, List.count_singleton_self] at hcount
    omega

/-- A load succeeds, or cleans up after an unfinished one. -/
theorem wp_initModule :
    wp (initModule env)
      (fun ret t => ret = 0 ∧ Loaded env k t ∨
        ret ≠ 0 ∧ ∃ m, Unfinished k m ∧ abort ret m = .ok ret t)
      (fun _ _ => True) k := by
  have hfail (ret : ℤ) (m : Kernel) (hret : ret ≠ 0) (hm : Unfinished k m) :
      wp (abort ret) (fun ret t => ret = 0 ∧ Loaded env k t ∨
        ret ≠ 0 ∧ ∃ m, Unfinished k m ∧ abort ret m = .ok ret t) (fun _ _ => True) m :=
    wp_of_ok (abort_eq ret m) (Or.inr ⟨hret, m, hm, abort_eq ret m⟩)
  rw [initModule, wp_bind]
  apply wp_mono (wp_initPassword env k) _ fun _ _ _ => trivial
  intro ret t₁ ⟨hpassword, hlock⟩
  rcases hpassword with ⟨rfl, hcore⟩ | ⟨hret, hcore⟩
  on_goal 2 =>
    rw [if_pos hret]
    exact hfail ret t₁ hret ⟨by rw [hcore], fun h => by rw [hcore, h]; simp, Or.inl (by rw [hcore])⟩
  rw [if_neg (by simp), wp_bind, initInstance, wp_bind, wp_put, wp_bind, wp_put]
  set t₂ : Kernel := { t₁ with core := { t₁.core with theInstance :=
    { t₁.core.theInstance with state := .OFF, registry := [] } } } with ht₂
  have hfresh : Unfinished k t₂ :=
    ⟨by rw [ht₂, hcore], fun h => by rw [ht₂, hcore]; simp [h], Or.inl (by rw [ht₂, hcore])⟩
  by_cases hlist : env.checkListInit = true
  on_goal 2 =>
    rw [if_neg hlist, wp_pure, if_pos (by decide)]
    exact hfail _ t₂ (by decide) hfresh
  rw [if_pos hlist, wp_pure, if_neg (by simp), wp_bind]
  obtain ⟨ret, files, hrun, -, -⟩ := createProcfiles_eq env t₂ procFiles
  apply wp_of_ok hrun
  set t₃ : Kernel := { t₂ with core := { t₂.core with
    created := t₂.core.created ++ files.map .proc } } with ht₃
  have hnoprobe (h : k.core.created = []) : .kretprobe .vfsRmdir ∉ t₃.core.created := by
    rw [ht₃, ht₂, hcore]
    simp [h]
  have hprocs : Unfinished k t₃ := ⟨by rw [ht₃, ht₂, hcore], hnoprobe, Or.inl (by rw [ht₃, ht₂, hcore])⟩
  by_cases hret : ret = 0
  on_goal 2 =>
    rw [if_pos hret]
    exact hfail ret t₃ hret hprocs
  rw [if_neg (not_not.mpr hret), wp_bind]
  have hsys : t₃.core.syscalls = k.core.syscalls := by rw [ht₃, ht₂, hcore]
  rcases initSyscalls_eq env t₃ with ⟨ret, hret, hrun⟩ | ⟨area, hrun, hrestorable, hindices⟩
  · apply wp_of_ok hrun
    rw [if_pos hret]
    exact hfail ret t₃ hret hprocs
  rw [hsys] at hrestorable
  apply wp_of_ok hrun
  rw [if_neg (by simp), wp_bind]
  set t₄ : Kernel := { t₃ with core := { t₃.core with syscalls := area } } with ht₄
  obtain ⟨ret, done, hrun, hinit, hret⟩ := registerProbes_eq env t₄ probes
  apply wp_of_ok hrun
  by_cases hzero : ret = 0
  · rw [if_neg (not_not.mpr hzero), wp_pure]
    refine Or.inl ⟨rfl, hlock, by rw [ht₄, ht₃, ht₂, hcore], ?_, by rw [ht₄, ht₃, ht₂, hcore], hrestorable⟩
    intro probe
    rw [hret.mp hzero]
    cases probe <;> simp [probes]
  · rw [if_pos hzero]
    refine hfail ret _ hzero ⟨by rw [ht₄, ht₃, ht₂, hcore], fun h => ?_, Or.inr ⟨hrestorable, hindices⟩⟩
    have hlast : Probe.vfsRmdir ∉ done := proper_prefix_probes hinit fun heq => hzero (hret.mpr heq)
    simpa [ht₄, hlast] using hnoprobe h

end Whole

end Refmon
