import Refmon.LoadSpecs
import Refmon.LoadSteps
import Mathlib.Data.Fintype.Basic
import Mathlib.Data.List.Infix
import Mathlib.Tactic.FinCases

/-!
# How far a load has come

What each step does to the module's state when it succeeds, and from that what the steps still
to be taken leave known about the system-call table: the entries are chosen, distinct and hold
one address; then the handlers are stored in them; then their numbers are published.
-/

namespace Refmon

open Wp

variable {δ : Type} {env : Env δ}

/-- The entries that `get_entries` has found. -/
def SyscallArea.take (area : SyscallArea) (ids : List ℕ) (ni : UInt64) : SyscallArea :=
  { area with restore := fun i => ids.getD i 0, theNiSyscall := ni }

/-- One store into the table. -/
def SyscallArea.store (area : SyscallArea) (i : Fin HACKED_ENTRIES) (value : UInt64) : SyscallArea :=
  { area with words := Function.update area.words (area.restore i) value }

/-- One number is published. -/
def SyscallArea.assign (area : SyscallArea) (i : Fin HACKED_ENTRIES) : SyscallArea :=
  { area with syscallCodes := area.syscallCodes.set i (area.restore i) }

/-- What a step that succeeds does. -/
def LoadStep.Effect (env : Env δ) (core after : Core) : LoadStep → Prop
  | .initPassword => ∃ enc, after =
      { core with theInstance := { core.theInstance with password := some enc } }
  | .initInstance => after =
      { core with theInstance := { core.theInstance with state := .OFF, registry := [] } }
  | .createProc file => after = { core with created := core.created ++ [.proc file] }
  | .getEntries => ∃ (ids : List ℕ) (ni : UInt64), ids.length = HACKED_ENTRIES ∧
      (ids.Nodup ∧ ∀ id ∈ ids, id < TABLE_ENTRIES) ∧ (∀ id ∈ ids, core.syscalls.words id = ni) ∧
      after = { core with syscalls := core.syscalls.take ids ni }
  | .storeEntry i =>
    after = { core with syscalls := core.syscalls.store i (env.newSysCallArray i) }
  | .assignCode i => after = { core with syscalls := core.syscalls.assign i }
  | .register probe => after = { core with
      registered := Function.update core.registered probe true,
      created := core.created ++ [.kretprobe probe] }

/-- `get_entries` has found four distinct entries with one address. -/
theorem acquireEntries_effect {k t : Kernel} (h : acquireEntries k = .ok 0 t) :
    LoadStep.Effect env k.core t.core .getEntries := by
  unfold acquireEntries at h
  simp only [bind, EStateM.bind, gets] at h
  split at h
  · cases h
  have hcases := getEntries_cases HACKED_ENTRIES fun i => k.core.syscalls.words i
  rcases hcases with hnone | ⟨ids, ni, hsome, hlen, hids⟩
  · rw [hnone] at h
    cases h
  · have hnodup := getEntries_nodup hsome
    rw [hsome] at h
    cases h
    exact ⟨ids, ni, by exact_mod_cast hlen, hnodup, hids, rfl⟩

/-- A step that returns zero has its effect. -/
theorem LoadStep.effect_of_ok {loadStep : LoadStep} {k t : Kernel}
    (h : loadStep.action env k = .ok 0 t) : loadStep.Effect env k.core t.core := by
  cases loadStep with
  | initPassword =>
    rcases (wp_ok (wp_initPassword env k) h).1 with ⟨-, hcore⟩ | ⟨hret, -⟩
    · exact ⟨_, hcore⟩
    · exact absurd rfl hret
  | initInstance =>
    rw [LoadStep.action, Refmon.initInstance] at h
    cases hlist : env.checkListInit with
    | true =>
      rw [hlist] at h
      cases h
      rfl
    | false =>
      rw [hlist] at h
      cases h
  | createProc file =>
    rw [LoadStep.action] at h
    cases hfile : env.procCreate file with
    | true =>
      rw [hfile] at h
      cases h
      rfl
    | false =>
      rw [hfile] at h
      cases h
  | getEntries => exact acquireEntries_effect h
  | storeEntry i =>
    cases h
    rfl
  | assignCode i =>
    cases h
    rfl
  | register probe =>
    rw [LoadStep.action] at h
    by_cases hneg : env.registerKretprobe probe < 0
    · rw [if_pos hneg] at h
      have hret := (EStateM.Result.ok.inj h).1
      omega
    · rw [if_neg hneg] at h
      cases h
      rfl

/-- The codes after one assignment. -/
@[simp] theorem RegisteredSyscallCodes.get_set (codes : RegisteredSyscallCodes)
    (i j : Fin HACKED_ENTRIES) (code : ℤ) :
    (codes.set i code).get j = if j = i then code else codes.get j := by
  fin_cases i <;> fin_cases j <;> rfl

/-- What a load has done to the table, by the steps that it still has to take. -/
structure Progress (env : Env δ) (before now : SyscallArea) (remaining : List LoadStep) : Prop where
  untouched : .getEntries ∈ remaining → now = before
  held : .getEntries ∉ remaining → ∀ i, before.words (now.restore i) = now.theNiSyscall
  examined : .getEntries ∉ remaining → ∀ i, 0 ≤ now.restore i ∧ now.restore i < TABLE_ENTRIES
  injective : .getEntries ∉ remaining → Function.Injective now.restore
  others : .getEntries ∉ remaining → ∀ n, (∀ i, now.restore i ≠ n) → now.words n = before.words n
  handler : ∀ i, .storeEntry i ∉ remaining → now.words (now.restore i) = env.newSysCallArray i
  code : ∀ i, .assignCode i ∉ remaining → now.syscallCodes.get i = now.restore i

/-- The steps on the table come after `get_entries`, which comes before all of them. -/
def Orderly : List LoadStep → Prop
  | .getEntries :: rest =>
    .getEntries ∉ rest ∧ ∀ i, LoadStep.storeEntry i ∈ rest ∧ LoadStep.assignCode i ∈ rest
  | .storeEntry _ :: rest => .getEntries ∉ rest
  | .assignCode _ :: rest => .getEntries ∉ rest
  | _ => True

instance : DecidablePred Orderly := fun steps => by
  unfold Orderly
  split <;> infer_instance

/-- However far a load has come, the order is kept. -/
theorem orderly_of_suffix {remaining : List LoadStep} (h : remaining <:+ loadSteps) :
    Orderly remaining := by
  have hall : ∀ steps ∈ loadSteps.tails, Orderly steps := by decide
  exact hall remaining ((List.mem_tails _ _).mpr h)

section Steps

variable {before area : SyscallArea} {rest : List LoadStep}

/-- The entries are chosen: four distinct ones that hold one address. -/
theorem Progress.take {ids : List ℕ} {ni : UInt64} (h : Progress env before area (.getEntries :: rest))
    (horder : Orderly (.getEntries :: rest)) (hlen : ids.length = HACKED_ENTRIES)
    (hnodup : ids.Nodup ∧ ∀ id ∈ ids, id < TABLE_ENTRIES) (hids : ∀ id ∈ ids, area.words id = ni) :
    Progress env before (area.take ids ni) rest := by
  obtain ⟨hlast, hlater⟩ := horder
  have hbefore := h.untouched List.mem_cons_self
  have hget (i : Fin HACKED_ENTRIES) : ∃ hi : i.val < ids.length, ids.getD i 0 = ids[i.val] := by
    have hi : i.val < ids.length := by
      rw [hlen]
      exact i.isLt
    exact ⟨hi, List.getD_eq_getElem _ _ hi⟩
  constructor
  · exact fun hmem => absurd hmem hlast
  · intro _ i
    obtain ⟨hi, hgot⟩ := hget i
    rw [← hbefore, SyscallArea.take]
    apply hids
    rw [hgot]
    exact List.getElem_mem hi
  · intro _ i
    obtain ⟨hi, hgot⟩ := hget i
    have hlt := hnodup.2 _ (List.getElem_mem hi)
    have hrestore : (area.take ids ni).restore i = (ids[i.val] : ℕ) := by
      rw [← hgot]
      rfl
    omega
  · intro _ i j hij
    obtain ⟨hi, hgoti⟩ := hget i
    obtain ⟨hj, hgotj⟩ := hget j
    have heq : ids.getD i 0 = ids.getD j 0 := Int.ofNat_inj.mp hij
    rw [hgoti, hgotj] at heq
    exact Fin.ext (hnodup.1.getElem_inj_iff.mp heq)
  · intro _ n _
    rw [← hbefore]
    rfl
  · exact fun i hi => absurd (hlater i).1 hi
  · exact fun i hi => absurd (hlater i).2 hi

/-- A handler is stored in an entry of its own. -/
theorem Progress.store {j : Fin HACKED_ENTRIES} (h : Progress env before area (.storeEntry j :: rest))
    (horder : Orderly (.storeEntry j :: rest)) :
    Progress env before (area.store j (env.newSysCallArray j)) rest := by
  have hlast : .getEntries ∉ rest := horder
  have hchosen : .getEntries ∉ LoadStep.storeEntry j :: rest := by
    simpa using hlast
  constructor
  · exact fun hmem => absurd hmem hlast
  · exact fun _ => h.held hchosen
  · exact fun _ => h.examined hchosen
  · exact fun _ => h.injective hchosen
  · intro _ n hn
    rw [← h.others hchosen n hn]
    exact Function.update_of_ne (hn j).symm _ _
  · intro i hi
    by_cases hij : i = j
    · rw [hij]
      exact Function.update_self _ _ _
    · rw [← h.handler i (by simpa [hij] using hi)]
      exact Function.update_of_ne (fun heq => hij (h.injective hchosen heq)) _ _
  · exact fun i hi => h.code i (by simpa using hi)

/-- The number of an entry is published. -/
theorem Progress.assign {j : Fin HACKED_ENTRIES} (h : Progress env before area (.assignCode j :: rest))
    (horder : Orderly (.assignCode j :: rest)) : Progress env before (area.assign j) rest := by
  have hlast : .getEntries ∉ rest := horder
  have hchosen : .getEntries ∉ LoadStep.assignCode j :: rest := by
    simpa using hlast
  constructor
  · exact fun hmem => absurd hmem hlast
  · exact fun _ => h.held hchosen
  · exact fun _ => h.examined hchosen
  · exact fun _ => h.injective hchosen
  · exact fun _ => h.others hchosen
  · exact fun i hi => h.handler i (by simpa using hi)
  · intro i hi
    rw [SyscallArea.assign, RegisteredSyscallCodes.get_set]
    split
    · rename_i hij
      rw [hij]
    · rename_i hij
      exact h.code i (by simpa [hij] using hi)

/-- A step that is not about the table leaves the progress where it is. -/
theorem Progress.skip {loadStep : LoadStep} (h : Progress env before area (loadStep :: rest))
    (hget : loadStep ≠ .getEntries) (hstore : ∀ i, loadStep ≠ .storeEntry i)
    (hassign : ∀ i, loadStep ≠ .assignCode i) : Progress env before area rest := by
  have hchosen (hrest : .getEntries ∉ rest) : .getEntries ∉ loadStep :: rest := by
    simpa [hget.symm] using hrest
  constructor
  · exact fun hmem => h.untouched (List.mem_cons_of_mem _ hmem)
  · exact fun hrest => h.held (hchosen hrest)
  · exact fun hrest => h.examined (hchosen hrest)
  · exact fun hrest => h.injective (hchosen hrest)
  · exact fun hrest => h.others (hchosen hrest)
  · exact fun i hi => h.handler i (by simpa [(hstore i).symm] using hi)
  · exact fun i hi => h.code i (by simpa [(hassign i).symm] using hi)

/-- A step that succeeds brings the load further. -/
theorem Progress.step {core after : Core} {loadStep : LoadStep}
    (h : Progress env before core.syscalls (loadStep :: rest)) (horder : Orderly (loadStep :: rest))
    (heffect : loadStep.Effect env core after) : Progress env before after.syscalls rest := by
  cases loadStep with
  | getEntries =>
    obtain ⟨ids, ni, hlen, hnodup, hids, hafter⟩ := heffect
    rw [hafter]
    exact h.take horder hlen hnodup hids
  | storeEntry j =>
    rw [show after = _ from heffect]
    exact h.store horder
  | assignCode j =>
    rw [show after = _ from heffect]
    exact h.assign horder
  | initPassword =>
    obtain ⟨enc, hafter⟩ := heffect
    rw [hafter]
    exact h.skip (by simp) (by simp) (by simp)
  | initInstance =>
    rw [show after = _ from heffect]
    exact h.skip (by simp) (by simp) (by simp)
  | createProc file =>
    rw [show after = _ from heffect]
    exact h.skip (by simp) (by simp) (by simp)
  | register probe =>
    rw [show after = _ from heffect]
    exact h.skip (by simp) (by simp) (by simp)

/-- Before the first step nothing has been done to the table. -/
theorem progress_start (before : SyscallArea) : Progress env before before loadSteps := by
  have hget : LoadStep.getEntries ∈ loadSteps := by decide
  have hstore : ∀ i, LoadStep.storeEntry i ∈ loadSteps := by decide
  have hassign : ∀ i, LoadStep.assignCode i ∈ loadSteps := by decide
  exact ⟨fun _ => rfl, fun h => absurd hget h, fun h => absurd hget h, fun h => absurd hget h,
    fun h => absurd hget h, fun i h => absurd (hstore i) h, fun i h => absurd (hassign i) h⟩

end Steps

/-- When a row of steps succeeds, so do the first and the others. -/
theorem runSteps_cons_ok {loadStep : LoadStep} {rest : List LoadStep} {k t : Kernel}
    (h : runSteps env (loadStep :: rest) k = .ok 0 t) :
    ∃ m, loadStep.action env k = .ok 0 m ∧ runSteps env rest m = .ok 0 t := by
  simp only [runSteps, bind, EStateM.bind] at h
  cases haction : loadStep.action env k with
  | error fault m =>
    rw [haction] at h
    cases h
  | ok ret m =>
    rw [haction] at h
    dsimp only at h
    by_cases hret : ret = 0
    · rw [if_neg (not_not.mpr hret)] at h
      exact ⟨m, by rw [hret], h⟩
    · rw [if_pos hret] at h
      exact absurd (EStateM.Result.ok.inj h).1 hret

/-- When all steps succeed, each kept what the ones before it had done. -/
theorem progress_of_runSteps {before : SyscallArea} {remaining : List LoadStep} {k t : Kernel}
    (hsuffix : remaining <:+ loadSteps) (h : Progress env before k.core.syscalls remaining)
    (hrun : runSteps env remaining k = .ok 0 t) : Progress env before t.core.syscalls [] := by
  induction remaining generalizing k with
  | nil =>
    cases hrun
    exact h
  | cons loadStep rest ih =>
    obtain ⟨m, haction, hrest⟩ := runSteps_cons_ok hrun
    exact ih ((List.suffix_cons _ _).trans hsuffix)
      (h.step (orderly_of_suffix hsuffix) (LoadStep.effect_of_ok haction)) hrest

/-- A load that succeeds has run all its steps. -/
theorem runSteps_of_initModule {k t : Kernel} (h : initModule env k = .ok 0 t) :
    runSteps env loadSteps k = .ok 0 t := by
  rw [initModule_eq_runSteps] at h
  simp only [bind, EStateM.bind] at h
  cases hrun : runSteps env loadSteps k with
  | error fault m =>
    rw [hrun] at h
    cases h
  | ok ret m =>
    rw [hrun] at h
    dsimp only at h
    by_cases hret : ret = 0
    · rw [if_neg (not_not.mpr hret)] at h
      rw [← h, hret]
      rfl
    · rw [if_pos hret, abort_eq] at h
      exact absurd (EStateM.Result.ok.inj h).1 hret

/-- A load that succeeds has taken over four distinct entries that held one address, stored the
handlers in them and published their numbers, and left the other entries alone. -/
theorem progress_of_initModule {k t : Kernel} (h : initModule env k = .ok 0 t) :
    Progress env k.core.syscalls t.core.syscalls [] :=
  progress_of_runSteps List.suffix_rfl (progress_start _) (runSteps_of_initModule h)

end Refmon
