import Refmon.DeferSpecs

/-!
# Logging that feeds on itself

The open with which `defer` writes the log passes through the hook on `vfs_open`. The hook names the
log file by its path inside its own mount and looks that path up from the root. When a registered
file is found there, the open of the log is diverted like any other access, no record is written,
and the access that is denied is logged in turn.
-/

namespace Refmon

open Wp WorkQueue MountNamespace

variable {δ : Type} {w : Worker δ} {fs : Vfs δ} {logDentry : δ} {dataset : LogDataset}

/-- One denied access leads to one run of `defer`, which appends one record, and to no other work. -/
def Worker.LogsOnce (w : Worker δ) (denial : Denial δ) (k : Kernel) (log : Refmonfs) : Prop :=
  ∃ out world, world.records = [out] ∧ ∀ n, 0 < n → w.worksAfter denial k log n = some ⟨[], 1, world⟩

/-- A denied access whose program's path can be printed leaves one work to be run. -/
theorem worksAfter_eq (w : Worker δ) {denial : Denial δ} {seen : Vfs δ} (hsees : denial.env.Sees seen)
    (halloc : denial.env.Allocates) {path : CString}
    (hraw : seen.dentryPathRaw denial.current.exeFile = .ok path) (k : Kernel) (log : Refmonfs) :
    ∃ dataset t, dataset.progPath = path ∧ t.core = k.core ∧ ∀ n, w.worksAfter denial k log n =
      afterSteps w.runWork n ⟨[dataset], 0, ⟨t, log, []⟩⟩ := by
  obtain ⟨out, t, hrun, hout, ht⟩ :=
    wp_returns (wp_krpHookTail (k := k) hsees halloc denial.regs hraw)
  refine ⟨⟨denial.current.tgid, denial.current.tid, denial.current.uid, denial.env.euid, path⟩, t, rfl,
    ht.core, fun n => ?_⟩
  rw [Worker.worksAfter, hrun, hout]
  rfl

/-- A work that is written is run once, and its record is the only one. -/
theorem Worker.Mounted.after_writes (h : w.Mounted fs logDentry) (hruns : w.RunsIn fs) {world : LogWorld}
    (hwrites : w.Writes fs world.kernel.core dataset.progPath) (hrecords : world.records = []) :
    ∃ out world', world'.records = [out] ∧
      ∀ n, 0 < n → afterSteps w.runWork n ⟨[dataset], 0, world⟩ = some ⟨[], 1, world'⟩ := by
  obtain ⟨deferred, t, hrun, ⟨out, hdeferred⟩, -⟩ :=
    wp_returns (h.wp_defer_writes hruns dataset hwrites)
  have hwork : w.runWork dataset world = some ([], w.kernelWrite out { world with kernel := t }) := by
    rw [Worker.runWork, hrun, hdeferred]
  refine ⟨out, _, ?_, fun n hn => after_once hwork hn 0⟩
  rw [h.kernelWrite_records, hrecords]
  rfl

/-- A work that is not written adds no record in its first run. -/
theorem Worker.Mounted.after_unwritten (h : w.Mounted fs logDentry) (hruns : w.RunsIn fs)
    {world : LogWorld} (hunwritten : ¬ w.Writes fs world.kernel.core dataset.progPath)
    {q : State LogDataset LogWorld} (hafter : afterSteps w.runWork 1 ⟨[dataset], 0, world⟩ = some q) :
    q.world.records = world.records := by
  have hdefer := h.wp_defer_unwritten hruns dataset hunwritten
  cases hrun : w.defer dataset world.kernel with
  | error fault t =>
    have hcrash : w.runWork dataset world = none := by rw [Worker.runWork, hrun]
    rw [after_crash hcrash Nat.one_pos] at hafter
    cases hafter
  | ok deferred t =>
    have hnone := wp_ok hdefer hrun
    have hwork : w.runWork dataset world = some (deferred.scheduled, { world with kernel := t }) := by
      rw [Worker.runWork, hrun]
      dsimp only
      rw [hnone]
    rw [after_succ hwork] at hafter
    cases hafter
    rfl

/-- A worker with a program runs a work for every work, for ever, when the log is shadowed. -/
theorem Worker.Mounted.after_shadowed (h : w.Mounted fs logDentry) (hruns : w.RunsIn fs)
    {current : Task δ} {path : CString} {world : LogWorld} (hcurrent : w.current = some current)
    (hraw : fs.dentryPathRaw current.exeFile = .ok path) (hown : w.Reads fs world.kernel.core path)
    (hreads : w.Reads fs world.kernel.core dataset.progPath)
    (hprobed : world.kernel.core.enabled .vfsOpen = true)
    (hshadowed : fs.LogShadowed world.kernel.core.theInstance.registry) (n : ℕ) :
    ∃ next world', afterSteps w.runWork n ⟨[dataset], 0, world⟩ = some ⟨[next], n, world'⟩ ∧
      world'.records = world.records := by
  let good (dataset : LogDataset) (now : LogWorld) : Prop :=
    w.Reads fs world.kernel.core dataset.progPath ∧ now.kernel.core = world.kernel.core ∧
      now.records = world.records
  have hagain : ∀ dataset now, good dataset now →
      ∃ next now', w.runWork dataset now = some ([next], now') ∧ good next now' := by
    intro dataset now ⟨hdataset, hcore, hrecords⟩
    rw [← hcore] at hdataset hprobed hshadowed
    obtain ⟨deferred, t, hrun, hdeferred, ht⟩ :=
      wp_returns (h.wp_defer_again hruns dataset hcurrent hraw hdataset hprobed hshadowed)
    refine ⟨⟨current.tgid, current.tid, current.uid, w.env.euid, path⟩, { now with kernel := t }, ?_, hown,
      ht.core.trans hcore, hrecords⟩
    rw [Worker.runWork, hrun, hdeferred]
  have hstart : good dataset world := ⟨hreads, rfl, rfl⟩
  obtain ⟨next, world', hafter, -, -, hrecords⟩ := after_endless hagain hstart n 0
  rw [Nat.zero_add] at hafter
  exact ⟨next, world', hafter, hrecords⟩

/-- A kernel thread crashes in the first work when the log is shadowed. -/
theorem Worker.Mounted.after_kernelThread (h : w.Mounted fs logDentry) (hruns : w.RunsIn fs)
    {world : LogWorld} (hcurrent : w.current = none) (hreads : w.Reads fs world.kernel.core dataset.progPath)
    (hprobed : world.kernel.core.enabled .vfsOpen = true)
    (hshadowed : fs.LogShadowed world.kernel.core.theInstance.registry) {n : ℕ} (hn : 0 < n) :
    afterSteps w.runWork n ⟨[dataset], 0, world⟩ = none := by
  have hcrash := h.wp_defer_crash hruns dataset hcurrent hreads hprobed hshadowed
  apply after_crash _ hn
  cases hrun : w.defer dataset world.kernel with
  | error fault t => rw [Worker.runWork, hrun]
  | ok deferred t => exact (wp_ok hcrash hrun).elim

section ShadowedLog

/-- The log's file system is mounted on `/mnt/refmonfs`, and the root directory holds a program `/a`
and a file with the name of the log file. -/
def shadowedLayout : Layout where
  files := [(⟨0, []⟩, ⟨2, .dir⟩), (⟨0, [fileName "mnt"]⟩, ⟨3, .dir⟩),
    (⟨0, [fileName "mnt", fileName "refmonfs"]⟩, ⟨5, .dir⟩), (⟨0, [fileName "a"]⟩, ⟨7, .file⟩),
    (⟨0, [fileName "blocked-ops.log"]⟩, ⟨8, .file⟩), (⟨1, []⟩, ⟨10, .dir⟩),
    (⟨1, [fileName "blocked-ops.log"]⟩, ⟨1, .file⟩)]
  mounts := [(⟨0, [fileName "mnt", fileName "refmonfs"]⟩, 1)]

theorem shadowedLayout_sound : shadowedLayout.Sound where
  root := by decide +kernel
  above := by decide +kernel
  mounts := by decide +kernel

/-- The namespace of the two filesystems, and what a process at the root sees of it. -/
abbrev shadowedNs : MountNamespace shadowedLayout.Cwd Dentry :=
  shadowedLayout.mountNamespace shadowedLayout_sound

abbrev shadowedView : Vfs Dentry := shadowedNs.view shadowedLayout_sound.rootDir

/-- The log file, and the file that shadows it. -/
def mountedLog : Dentry := ⟨1, [fileName "blocked-ops.log"]⟩

def rootLog : Dentry := ⟨0, [fileName "blocked-ops.log"]⟩

/-- The module in the state `ON` after root has added one path. -/
def shadowedOn (path : CString) : Kernel :=
  step (rootSetState shadowedView REFMON_STATE_STRING_ON) (added shadowedNs shadowedLayout_sound.rootDir path)

theorem shadowedOn_reachable (path : CString) : Reachable Dentry ciaoSha256 (shadowedOn path) := by
  have hload : returned (initModule (shadowedView.calm ciaoSha256) inserted) = some 0 := by
    decide +kernel
  have hbooted : Reachable Dentry ciaoSha256 (booted shadowedView) :=
    Runs.Reach.start (booted_of_returned hload)
  exact ((hbooted.next _ ⟨rfl, trivial⟩).next _ ⟨rfl, trivial⟩).next _ ⟨rfl, trivial⟩

/-- The program `/a` opens a file for writing, and is denied. -/
def deniedOpen (dentry : Dentry) : Denial Dentry :=
  ⟨shadowedView.calm ciaoSha256, runs rootA, vfsOpenRegs dentry O_WRONLY (.int 0) 0⟩

theorem deniedOpen_sees (dentry : Dentry) : (deniedOpen dentry).env.Sees shadowedView :=
  Vfs.calm_sees _ _

/-- A worker that reads empty programs. -/
def logWorker (current : Option (Task Dentry)) : Worker Dentry :=
  ⟨shadowedView.calm ciaoSha256, current, fun _ _ => 0, fun _ => ([], 0), fun _ _ => true, 0⟩

/-- A log file without records. -/
def newLog : Refmonfs := ⟨fun _ _ => 0, 0, 0⟩

variable (current : Option (Task Dentry))

theorem logWorker_runsIn : (logWorker current).RunsIn shadowedView :=
  ⟨Vfs.calm_sees _ _, view_absolute _, fun _ => rfl, fun _ => rfl⟩

theorem logWorker_mounted : (logWorker current).Mounted shadowedView mountedLog where
  found := by decide +kernel
  ownPath := by decide +kernel
  opens := rfl
  readable _ _ := rfl

theorem rootA_ownPath : shadowedView.dentryPathRaw (runs rootA).exeFile = .ok (lit "/a") := by
  decide +kernel

theorem logWorker_reads (core : Core) : (logWorker current).Reads shadowedView core (lit "/a") :=
  ⟨rootA, by decide +kernel, fun _ => ⟨_, rootA_ownPath⟩, rfl, le_rfl⟩

/-- The module where the file that shadows the log is registered. -/
def shadowedKernel : Kernel := shadowedOn (lit "/blocked-ops.log")

theorem shadowedKernel_registry : shadowedKernel.core.theInstance.registry =
    [⟨⟨lit "/blocked-ops.log", 8⟩, ⟨lit "/blocked-ops.log", 8⟩⟩] := by
  decide +kernel

theorem shadowedKernel_shadowed :
    shadowedView.LogShadowed shadowedKernel.core.theInstance.registry := by
  rw [shadowedKernel_registry]
  exact ⟨lit "/blocked-ops.log", by decide +kernel, _, List.mem_singleton_self _, Or.inl rfl⟩

end ShadowedLog

end Refmon
