import Refmon.DeferredLog
import Refmon.DentryIdentity

/-!
# What deferred works do

In a namespace that stands still, and with memory, an open by the worker is diverted exactly when
the probe on `vfs_open` is enabled and the hook denies. A run of `defer` then hands its record to
the log file, or does not, by two conditions: whether the program can be read, and whether the open
of the log file is diverted.
-/

namespace Refmon

open Wp

variable {δ : Type}

/-- An open is diverted by the probe on `vfs_open`. -/
def Vfs.Diverts (fs : Vfs δ) (core : Core) (dentry : δ) (flags : UInt32) : Prop :=
  core.enabled .vfsOpen = true ∧ fs.DeniesOpen core.theInstance.registry dentry flags

/-- The hook can print the dentry's path, if it is asked to. -/
def Vfs.Prints (fs : Vfs δ) (core : Core) (dentry : δ) : Prop :=
  core.enabled .vfsOpen = true → ∃ path, fs.dentryPathRaw dentry = .ok path

/-- A worker whose lookups are those of a namespace and whose allocations succeed. -/
structure Worker.RunsIn (w : Worker δ) (fs : Vfs δ) : Prop where
  sees : w.env.Sees fs
  absolute : fs.Absolute
  allocates : w.env.Allocates
  hashes : w.env.Hashes

variable {w : Worker δ} {fs : Vfs δ} {k : Kernel} {dentry : δ} {filename : CString} {flags : UInt32}

/-- With memory, the hook's answer is a decision. -/
theorem Worker.RunsIn.wp_krpHookOpen (h : w.RunsIn fs) {path : CString}
    (hraw : fs.dentryPathRaw dentry = .ok path) (flags : UInt32) :
    wp (krpHookOpen w.env dentry flags)
      (fun ret t => (ret = KRP_TO_TAILHOOK ↔ fs.DeniesOpen k.core.theInstance.registry dentry flags) ∧
        Same k t) (fun _ _ => False) k := by
  apply wp_mono (Refmon.wp_krpHookOpen h.sees h.absolute hraw flags) _ fun _ _ hF => hF
  intro ret t ⟨hdecides, ht⟩
  exact ⟨⟨hdecides.sound, hdecides.complete h.allocates⟩, ht⟩

/-- The verdict on an open by the worker, whether or not the probe is enabled. -/
theorem Worker.RunsIn.wp_probeVerdict (h : w.RunsIn fs) (hprints : fs.Prints k.core dentry)
    (flags : UInt32) :
    wp (w.probeVerdict dentry flags)
      (fun ret t => (ret = KRP_TO_TAILHOOK ↔ fs.Diverts k.core dentry flags) ∧ Same k t)
      (fun _ _ => False) k := by
  rw [Worker.probeVerdict, wp_bind, wp_gets]
  by_cases hprobed : k.core.enabled .vfsOpen = true
  · obtain ⟨path, hraw⟩ := hprints hprobed
    rw [if_pos hprobed]
    apply wp_mono (h.wp_krpHookOpen hraw flags) _ fun _ _ hF => hF
    intro ret t ⟨hret, ht⟩
    exact ⟨hret.trans (and_iff_right hprobed).symm, ht⟩
  · rw [if_neg hprobed]
    exact ⟨iff_of_false (by decide) fun hdiverts => hprobed hdiverts.1, Same.refl k⟩

/-- An open that finds its file goes on with the verdict of the probe. -/
theorem Worker.RunsIn.wp_filpOpen_found (h : w.RunsIn fs) (hfound : fs.kernPath filename true = .ok dentry)
    (hprints : fs.Prints k.core dentry) {Q : Except ℤ δ × List LogDataset → Kernel → Prop}
    {E : Fault → Kernel → Prop}
    (hpasses : ∀ t, Same k t → ¬ fs.Diverts k.core dentry flags →
      Q (if w.vfsOpen dentry flags = 0 then .ok dentry else .error (w.vfsOpen dentry flags), []) t)
    (hdiverted : ∀ t, Same k t → fs.Diverts k.core dentry flags →
      wp (w.hookTail (vfsOpenRegs dentry flags (.int 0) (w.vfsOpen dentry flags))).2
        (fun out => Q (.error (-EACCES), out.2.toList)) E t) :
    wp (w.filpOpen filename flags) Q E k := by
  rw [Worker.filpOpen, wp_bind]
  apply wp_ask
  intro t₁ k₁
  rw [h.sees.kernPath, hfound]
  dsimp only
  rw [wp_bind]
  have hprints₁ : fs.Prints t₁.core dentry := by
    rw [k₁.core]
    exact hprints
  apply wp_mono (h.wp_probeVerdict hprints₁ flags) _ fun _ _ hF => hF.elim
  intro verdict t₂ ⟨hret, h₂⟩
  rw [k₁.core] at hret
  have k₂ := Same.trans _ _ _ k₁ h₂
  by_cases hdiverts : fs.Diverts k.core dentry flags
  · rw [if_pos (hret.mpr hdiverts), wp_bind]
    have hax : (w.hookTail (vfsOpenRegs dentry flags (.int 0) (w.vfsOpen dentry flags))).1.ax = -EACCES := by
      unfold Worker.hookTail
      cases w.current <;> rfl
    rw [hax]
    exact hdiverted t₂ k₂ hdiverts
  · rw [if_neg fun htail => hdiverts (hret.mp htail)]
    exact hpasses t₂ k₂ hdiverts

/-- An open that finds no file fails. -/
theorem Worker.RunsIn.wp_filpOpen_missing (h : w.RunsIn fs) {e : ℤ}
    (hmissing : fs.kernPath filename true = .error e) :
    wp (w.filpOpen filename flags) (fun out _ => out.1 = .error e) (fun _ _ => True) k := by
  rw [Worker.filpOpen, wp_bind]
  apply wp_ask
  intro t _
  rw [h.sees.kernPath, hmissing]
  exact rfl

/-- An open of a file whose path the hook cannot print crashes. -/
theorem Worker.RunsIn.wp_filpOpen_unprintable (h : w.RunsIn fs)
    (hfound : fs.kernPath filename true = .ok dentry) (hunprintable : ¬ fs.Prints k.core dentry) :
    wp (w.filpOpen filename flags) (fun _ _ => False) (fun _ _ => True) k := by
  have hprobed : k.core.enabled .vfsOpen = true := by
    by_contra hnot
    exact hunprintable fun hprobed => absurd hprobed hnot
  rw [Worker.filpOpen, wp_bind]
  apply wp_ask
  intro t ht
  rw [h.sees.kernPath, hfound]
  dsimp only
  rw [wp_bind, Worker.probeVerdict, wp_bind, wp_gets, ht.core, if_pos hprobed, krpHookOpen, wp_bind]
  cases hraw : fs.dentryPathRaw dentry with
  | ok path => exact absurd (fun _ => ⟨path, hraw⟩) hunprintable
  | error e =>
    apply wp_mono (wp_identify_error h.sees hraw) _ fun _ _ _ => trivial
    intro out u ⟨_, hfail⟩
    exact absurd h.allocates hfail

/-- The worker can open the file at a path and read it to its end. -/
def Worker.Reads (w : Worker δ) (fs : Vfs δ) (core : Core) (filepath : CString) : Prop :=
  ∃ dentry, fs.kernPath filepath true = .ok dentry ∧ fs.Prints core dentry ∧
    w.vfsOpen dentry O_RDONLY = 0 ∧ 0 ≤ (w.kernelRead dentry).2

/-- Opens for reading are not diverted. -/
theorem not_diverts_readOnly (core : Core) (dentry : δ) : ¬ fs.Diverts core dentry O_RDONLY := by
  intro ⟨_, id, _, hwrite, _⟩
  revert hwrite
  decide

/-- The loop adds every chunk. -/
theorem Worker.RunsIn.wp_updateHash (h : w.RunsIn fs) (chunks : List (List UInt8)) :
    wp (w.updateHash chunks) (fun updated t => updated = true ∧ Same k t) (fun _ _ => False) k := by
  induction chunks generalizing k with
  | nil => exact ⟨rfl, Same.refl k⟩
  | cons chunk rest ih =>
    apply wp_ask_else
    · intro _ _ hfail
      exact absurd h.hashes hfail
    · intro t ht
      apply wp_mono ih _ fun _ _ hF => hF
      intro updated u ⟨hupdated, hu⟩
      exact ⟨hupdated, Same.trans _ _ _ ht hu⟩

/-- With memory, `hashgen_filecont` gets to its open. -/
theorem Worker.RunsIn.wp_hashgenFilecont (h : w.RunsIn fs) {filepath : CString}
    {Q : Option CString × List LogDataset → Kernel → Prop} {E : Fault → Kernel → Prop}
    (hopen : ∀ t, Same k t → wp (w.filpOpen filepath O_RDONLY) (fun out => wp (w.hashOpened out) Q E) E t) :
    wp (w.hashgenFilecont filepath) Q E k := by
  rw [Worker.hashgenFilecont]
  apply wp_ask_else (fun _ _ hfail => absurd h.allocates hfail)
  intro t₁ h₁
  apply wp_ask_else (fun _ _ hfail => absurd h.allocates hfail)
  intro t₂ h₂
  apply wp_ask_else (fun _ _ hfail => absurd h.hashes hfail)
  intro t₃ h₃
  apply wp_ask_else (fun _ _ hfail => absurd h.allocates hfail)
  intro t₄ h₄
  apply wp_ask_else (fun _ _ hfail => absurd h.hashes hfail)
  intro t₅ h₅
  rw [wp_bind]
  apply hopen
  have k₃ := Same.trans _ _ _ (Same.trans _ _ _ h₁ h₂) h₃
  exact Same.trans _ _ _ k₃ (Same.trans _ _ _ h₄ h₅)

/-- A file that can be read is hashed. -/
theorem Worker.RunsIn.wp_hashgenFilecont_reads (h : w.RunsIn fs) {filepath : CString}
    (hreads : w.Reads fs k.core filepath) :
    wp (w.hashgenFilecont filepath) (fun out t => (∃ hash, out = (some hash, [])) ∧ Same k t)
      (fun _ _ => False) k := by
  obtain ⟨dentry, hfound, hprints, hopens, hlast⟩ := hreads
  apply h.wp_hashgenFilecont
  intro t ht
  rw [← ht.core] at hprints
  apply h.wp_filpOpen_found hfound hprints
  · intro u hu _
    rw [if_pos hopens, Worker.hashOpened, wp_bind]
    apply wp_mono (h.wp_updateHash _) _ fun _ _ hF => hF
    intro updated v ⟨hupdated, hv⟩
    rw [hupdated, if_neg (by decide), if_neg (not_lt.mpr hlast)]
    apply wp_ask_else (fun _ _ hfail => absurd h.hashes hfail)
    intro x hx
    refine ⟨⟨_, rfl⟩, Same.trans _ _ _ ht (Same.trans _ _ _ hu (Same.trans _ _ _ hv hx))⟩
  · intro u _ hdiverts
    exact absurd hdiverts (not_diverts_readOnly _ _)

/-- A file that cannot be read is not hashed. -/
theorem Worker.RunsIn.wp_hashgenFilecont_unread (h : w.RunsIn fs) {filepath : CString}
    (hunread : ¬ w.Reads fs k.core filepath) :
    wp (w.hashgenFilecont filepath) (fun out _ => out.1 = none) (fun _ _ => True) k := by
  have hfailed (out : Except ℤ δ × List LogDataset) (t : Kernel) {e : ℤ} (hout : out.1 = .error e) :
      wp (w.hashOpened out) (fun out _ => out.1 = none) (fun _ _ => True) t := by
    obtain ⟨opened, works⟩ := out
    dsimp only at hout
    rw [hout]
    exact rfl
  apply h.wp_hashgenFilecont
  intro t ht
  cases hfound : fs.kernPath filepath true with
  | error e =>
    apply wp_mono (h.wp_filpOpen_missing hfound) _ fun _ _ hE => hE
    intro out u hout
    exact hfailed out u hout
  | ok dentry =>
    by_cases hprints : fs.Prints t.core dentry
    · apply h.wp_filpOpen_found hfound hprints
      · intro u _ _
        by_cases hopens : w.vfsOpen dentry O_RDONLY = 0
        · have hlast : (w.kernelRead dentry).2 < 0 := by
            by_contra hnot
            rw [ht.core] at hprints
            exact hunread ⟨dentry, hfound, hprints, hopens, not_lt.mp hnot⟩
          rw [if_pos hopens, Worker.hashOpened, wp_bind]
          apply wp_mono (h.wp_updateHash _) _ fun _ _ _ => trivial
          intro updated v ⟨hupdated, _⟩
          rw [hupdated, if_neg (by decide), if_pos hlast]
          exact rfl
        · rw [if_neg hopens]
          exact hfailed _ u rfl
      · intro u _ hdiverts
        exact absurd hdiverts (not_diverts_readOnly _ _)
    · apply wp_mono (h.wp_filpOpen_unprintable hfound hprints) _ fun _ _ hE => hE
      intro out u hF
      exact hF.elim

end Refmon
