import Refmon.DeferredLogSpecs

/-!
# When a deferred work writes its record

The log file has the same path inside its own mount on every system, and the hook looks that path
up from the root. `defer` writes its record when its program can be read and no registered file is
found there; otherwise it writes nothing.
-/

namespace Refmon

open Wp

variable {δ : Type}

/-- The path of the log file inside its own mount. -/
def logOwnPath : CString := slash :: REFMON_FILE_LOG

/-- The log's file system is mounted: its path leads to the log file, whose own path is inside the
mount, which can be opened, and whose blocks can be read. -/
structure Worker.Mounted (w : Worker δ) (fs : Vfs δ) (logDentry : δ) : Prop where
  found : fs.kernPath REFMON_FILE_LOG_ABSOLUTE true = .ok logDentry
  ownPath : fs.dentryPathRaw logDentry = .ok logOwnPath
  opens : w.vfsOpen logDentry logFlags = 0
  readable : ∀ i sector, w.sbBread i sector = true

/-- Looked up from the root, the log file's path inside its own mount leads to a file that the
registry protects. -/
def Vfs.LogShadowed (fs : Vfs δ) (registry : List RegistryEntry) : Prop :=
  ∃ out, fs.resolve logOwnPath = some out ∧ fs.Eligible registry ⟨out, fs.inoAt out⟩

variable {w : Worker δ} {fs : Vfs δ} {k : Kernel} {logDentry : δ}

/-- The open of the log file is diverted exactly when the log is shadowed and the probe enabled. -/
theorem Worker.Mounted.diverts_iff (h : w.Mounted fs logDentry) (core : Core) :
    fs.Diverts core logDentry logFlags ↔
      core.enabled .vfsOpen = true ∧ fs.LogShadowed core.theInstance.registry := by
  have hid : fs.identify logDentry =
      (fs.resolve logOwnPath).map fun out => ⟨out, fs.inoAt out⟩ := by
    rw [Vfs.identify, h.ownPath]
  unfold Vfs.Diverts Vfs.DeniesOpen Vfs.LogShadowed
  apply and_congr_right
  intro _
  rw [hid]
  constructor
  · rintro ⟨id, hsome, _, heligible⟩
    rw [Option.map_eq_some_iff] at hsome
    obtain ⟨out, hout, hpath⟩ := hsome
    rw [← hpath] at heligible
    exact ⟨out, hout, heligible⟩
  · rintro ⟨out, hout, heligible⟩
    refine ⟨_, ?_, by decide, heligible⟩
    rw [hout, Option.map_some]

/-- The hook can print the log file's path. -/
theorem Worker.Mounted.prints (h : w.Mounted fs logDentry) (core : Core) : fs.Prints core logDentry :=
  fun _ => ⟨_, h.ownPath⟩

/-- The record of a work is written: its program can be read, and the log can be opened. -/
def Worker.Writes (w : Worker δ) (fs : Vfs δ) (core : Core) (progPath : CString) : Prop :=
  w.Reads fs core progPath ∧ ¬ (core.enabled .vfsOpen = true ∧ fs.LogShadowed core.theInstance.registry)

/-- The record of a program that can be read is written, unless the open of the log is diverted. -/
theorem Worker.Mounted.wp_defer (h : w.Mounted fs logDentry) (hruns : w.RunsIn fs) {dataset : LogDataset}
    (hreads : w.Reads fs k.core dataset.progPath) {Q : Deferred → Kernel → Prop}
    {E : Fault → Kernel → Prop}
    (hclear : ∀ out t, Same k t →
      ¬ (k.core.enabled .vfsOpen = true ∧ fs.LogShadowed k.core.theInstance.registry) →
        Q ⟨[], some out⟩ t)
    (hdiverted : ∀ t, Same k t → k.core.enabled .vfsOpen = true →
      fs.LogShadowed k.core.theInstance.registry →
        wp (w.hookTail (vfsOpenRegs logDentry logFlags (.int 0) (w.vfsOpen logDentry logFlags))).2
          (fun tail => Q ⟨tail.2.toList, none⟩) E t) :
    wp (w.defer dataset) Q E k := by
  rw [Worker.defer, wp_bind]
  apply wp_mono (hruns.wp_hashgenFilecont_reads hreads) _ fun _ _ hF => hF.elim
  intro out t ⟨⟨hash, hout⟩, ht⟩
  rw [hout]
  dsimp only
  rw [wp_bind]
  apply hruns.wp_filpOpen_found h.found (h.prints t.core)
  · intro u hu hpasses
    rw [h.diverts_iff, ht.core] at hpasses
    rw [if_pos h.opens]
    exact hclear _ u (Same.trans _ _ _ ht hu) hpasses
  · intro u hu hdiverts
    rw [h.diverts_iff, ht.core] at hdiverts
    exact hdiverted u (Same.trans _ _ _ ht hu) hdiverts.1 hdiverts.2

/-- A work that can be written is written, and schedules nothing. -/
theorem Worker.Mounted.wp_defer_writes (h : w.Mounted fs logDentry) (hruns : w.RunsIn fs)
    (dataset : LogDataset) (hwrites : w.Writes fs k.core dataset.progPath) :
    wp (w.defer dataset) (fun deferred t => (∃ out, deferred = ⟨[], some out⟩) ∧ Same k t)
      (fun _ _ => False) k := by
  apply h.wp_defer hruns hwrites.1
  · intro out t ht _
    exact ⟨⟨out, rfl⟩, ht⟩
  · intro t _ hprobed hshadowed
    exact absurd ⟨hprobed, hshadowed⟩ hwrites.2

/-- Otherwise `defer` writes nothing. -/
theorem Worker.Mounted.wp_defer_unwritten (h : w.Mounted fs logDentry) (hruns : w.RunsIn fs)
    (dataset : LogDataset) (hunwritten : ¬ w.Writes fs k.core dataset.progPath) :
    wp (w.defer dataset) (fun deferred _ => deferred.written = none) (fun _ _ => True) k := by
  by_cases hreads : w.Reads fs k.core dataset.progPath
  · apply h.wp_defer hruns hreads
    · intro out t _ hclear
      exact absurd ⟨hreads, hclear⟩ hunwritten
    · intro t _ _ _
      apply wp_of_run
      · intro _ _ _
        exact rfl
      · intro _ _ _
        trivial
  · rw [Worker.defer, wp_bind]
    apply wp_mono (hruns.wp_hashgenFilecont_unread hreads) _ fun _ _ _ => trivial
    intro out t hout
    obtain ⟨hash, works⟩ := out
    dsimp only at hout
    rw [hout]
    exact rfl

section Tail

variable {env : Env δ} {current : Task δ}

/-- The tail schedules a work for the task that was denied. -/
theorem wp_krpHookTail (hsees : env.Sees fs) (halloc : env.Allocates) (regs : PtRegs δ) {path : CString}
    (hraw : fs.dentryPathRaw current.exeFile = .ok path) :
    wp (krpHookTail env current regs).2
      (fun out t => out = (0, some ⟨current.tgid, current.tid, current.uid, env.euid, path⟩) ∧ Same k t)
      (fun _ _ => False) k := by
  unfold krpHookTail
  dsimp only [regsSetReturnValue]
  rw [if_neg (not_not.mpr rfl), wp_bind]
  apply wp_mono (wp_logHandler hsees hraw) _ fun _ _ hF => hF
  intro out t ⟨⟨_, hout⟩, ht⟩
  rw [hout halloc]
  exact ⟨rfl, ht⟩

/-- It crashes when the program's path cannot be printed. -/
theorem wp_krpHookTail_unprintable (hsees : env.Sees fs) (halloc : env.Allocates) (regs : PtRegs δ) {e : ℤ}
    (hraw : fs.dentryPathRaw current.exeFile = .error e) :
    wp (krpHookTail env current regs).2 (fun _ _ => False) (fun _ _ => True) k := by
  unfold krpHookTail
  dsimp only [regsSetReturnValue]
  rw [if_neg (not_not.mpr rfl), wp_bind, logHandler]
  apply wp_ask_else (fun _ _ hfail => absurd halloc hfail)
  intro t _
  rw [wp_bind]
  apply wp_mono (wp_extractPathFromDentry_error hsees hraw) _ fun _ _ _ => trivial
  rintro _ _ ⟨_, hfail⟩
  exact absurd halloc hfail

end Tail

/-- A worker whose task has a program schedules one more work for each that it cannot write. -/
theorem Worker.Mounted.wp_defer_again (h : w.Mounted fs logDentry) (hruns : w.RunsIn fs)
    (dataset : LogDataset) {current : Task δ} {path : CString} (hcurrent : w.current = some current)
    (hraw : fs.dentryPathRaw current.exeFile = .ok path) (hreads : w.Reads fs k.core dataset.progPath)
    (hprobed : k.core.enabled .vfsOpen = true)
    (hshadowed : fs.LogShadowed k.core.theInstance.registry) :
    wp (w.defer dataset)
      (fun deferred t => deferred =
        ⟨[⟨current.tgid, current.tid, current.uid, w.env.euid, path⟩], none⟩ ∧ Same k t)
      (fun _ _ => False) k := by
  apply h.wp_defer hruns hreads
  · intro out t _ hclear
    exact absurd ⟨hprobed, hshadowed⟩ hclear
  · intro t ht _ _
    unfold Worker.hookTail
    rw [hcurrent]
    apply wp_mono (wp_krpHookTail hruns.sees hruns.allocates _ hraw) _ fun _ _ hF => hF
    intro tail u ⟨htail, hu⟩
    rw [htail]
    exact ⟨rfl, Same.trans _ _ _ ht hu⟩

/-- A kernel thread crashes when its open of the log file is diverted. -/
theorem Worker.Mounted.wp_defer_crash (h : w.Mounted fs logDentry) (hruns : w.RunsIn fs)
    (dataset : LogDataset) (hcurrent : w.current = none) (hreads : w.Reads fs k.core dataset.progPath)
    (hprobed : k.core.enabled .vfsOpen = true)
    (hshadowed : fs.LogShadowed k.core.theInstance.registry) :
    wp (w.defer dataset) (fun _ _ => False) (fun _ _ => True) k := by
  apply h.wp_defer hruns hreads
  · intro out t _ hclear
    exact absurd ⟨hprobed, hshadowed⟩ hclear
  · intro t _ _ _
    unfold Worker.hookTail
    rw [hcurrent]
    apply wp_ask_else (fun _ _ hfail => absurd hruns.allocates hfail)
    intro _ _
    trivial

/-- A write to the log file appends its record. -/
theorem Worker.Mounted.kernelWrite_records (h : w.Mounted fs logDentry) (out : List UInt8)
    (world : LogWorld) : (w.kernelWrite out world).records = world.records ++ [out] := by
  have hwritten : (onefilefsWriteAsync ⟨out, w.sbBread, w.outSize⟩ world.log).1 = .ok w.outSize := by
    unfold onefilefsWriteAsync writeBlock
    simp only [h.readable, Bool.true_eq_false, if_false]
    split <;> rfl
  unfold Worker.kernelWrite
  split
  · rfl
  · rename_i herror
    rw [herror] at hwritten
    cases hwritten

end Refmon
