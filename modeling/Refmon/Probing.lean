import Refmon.State

/-!
# Enabling and disabling the probes

`probing.c` without its registration functions. The results of the ten kernel calls below
are not looked at, so both functions report success whatever happens.
-/

namespace Refmon

open Wp

section

variable {δ : Type} (env : Env δ)

/-- `enable_kretprobe`: a probe is enabled exactly when the call returns zero. -/
def enableKretprobe (probe : Probe) : K ℤ := do
  let ret := env.enableKretprobe probe
  if ret = 0 then do
    put fun core => { core with enabled := Function.update core.enabled probe true }
    pure ret
  else pure ret

/-- `disable_kretprobe`: a probe is disabled exactly when the call returns zero. -/
def disableKretprobe (probe : Probe) : K ℤ := do
  let ret := env.disableKretprobe probe
  if ret = 0 then do
    put fun core => { core with enabled := Function.update core.enabled probe false }
    pure ret
  else pure ret

/-- `probing_off`. -/
def probingOff : K ℤ := do
  let _ ← disableKretprobe env .vfsOpen
  let _ ← disableKretprobe env .filpOpen
  let _ ← disableKretprobe env .vfsUnlink
  let _ ← disableKretprobe env .vfsMkdir
  let _ ← disableKretprobe env .vfsRmdir
  pure 0

/-- `probing_on`. -/
def probingOn : K ℤ := do
  let _ ← enableKretprobe env .vfsOpen
  let _ ← enableKretprobe env .filpOpen
  let _ ← enableKretprobe env .vfsUnlink
  let _ ← enableKretprobe env .vfsMkdir
  let _ ← enableKretprobe env .vfsRmdir
  pure 0

/-- `probing_update`. -/
def probingUpdate (desiredProbingState : Bool) : K ℤ :=
  if desiredProbingState then probingOn env else probingOff env

end

section Specs

variable {δ : Type} {env : Env δ}

/-- The probes after an attempt to enable all of them. -/
def enabledAfterOn (env : Env δ) (enabled : Probe → Bool) (probe : Probe) : Bool :=
  enabled probe || env.enableKretprobe probe == 0

/-- The probes after an attempt to disable all of them. -/
def enabledAfterOff (env : Env δ) (enabled : Probe → Bool) (probe : Probe) : Bool :=
  enabled probe && env.disableKretprobe probe != 0

/-- One call enables its probe or leaves the probes alone. -/
theorem enableKretprobe_eq (probe : Probe) (k : Kernel) :
    enableKretprobe env probe k = .ok (env.enableKretprobe probe)
      { k with core := { k.core with
          enabled := Function.update k.core.enabled probe
            (k.core.enabled probe || env.enableKretprobe probe == 0) } } := by
  by_cases hret : env.enableKretprobe probe = 0
  · simp [enableKretprobe, hret, put, bind, EStateM.bind, pure, EStateM.pure]
  · have hbit : (k.core.enabled probe || env.enableKretprobe probe == 0) = k.core.enabled probe := by
      simp [hret]
    rw [hbit, Function.update_eq_self]
    simp [enableKretprobe, hret, pure, EStateM.pure]

/-- One call disables its probe or leaves the probes alone. -/
theorem disableKretprobe_eq (probe : Probe) (k : Kernel) :
    disableKretprobe env probe k = .ok (env.disableKretprobe probe)
      { k with core := { k.core with
          enabled := Function.update k.core.enabled probe
            (k.core.enabled probe && env.disableKretprobe probe != 0) } } := by
  by_cases hret : env.disableKretprobe probe = 0
  · simp [disableKretprobe, hret, put, bind, EStateM.bind, pure, EStateM.pure]
  · have hbit : (k.core.enabled probe && env.disableKretprobe probe != 0) = k.core.enabled probe := by
      simp [hret]
    rw [hbit, Function.update_eq_self]
    simp [disableKretprobe, hret, pure, EStateM.pure]

/-- `probing_on` tries each probe once and returns zero. -/
theorem probingOn_eq (k : Kernel) :
    probingOn env k = .ok 0
      { k with core := { k.core with enabled := enabledAfterOn env k.core.enabled } } := by
  simp only [probingOn, bind, EStateM.bind, enableKretprobe_eq, pure, EStateM.pure]
  congr 3
  funext probe
  cases probe <;> rfl

/-- `probing_off` tries each probe once and returns zero. -/
theorem probingOff_eq (k : Kernel) :
    probingOff env k = .ok 0
      { k with core := { k.core with enabled := enabledAfterOff env k.core.enabled } } := by
  simp only [probingOff, bind, EStateM.bind, disableKretprobe_eq, pure, EStateM.pure]
  congr 3
  funext probe
  cases probe <;> rfl

/-- The probes after an update, by the direction asked for. -/
def enabledAfter (env : Env δ) (desired : Bool) (enabled : Probe → Bool) : Probe → Bool :=
  if desired then enabledAfterOn env enabled else enabledAfterOff env enabled

/-- `probing_update` reports success whatever the kernel answered. -/
theorem probingUpdate_eq (desired : Bool) (k : Kernel) :
    probingUpdate env desired k = .ok 0
      { k with core := { k.core with enabled := enabledAfter env desired k.core.enabled } } := by
  cases desired
  · exact probingOff_eq k
  · exact probingOn_eq k

end Specs

end Refmon
