import Refmon.Fsutils
import Refmon.Probing
import Refmon.Safety

/-!
# The four system calls

The handlers of `syscalls-handlers.c`. Each holds `spinlock_inst` from its first statement
to its return.
-/

namespace Refmon

section

variable {δ : Type} (env : Env δ)

/-- `_set_state`. The user string is read again, after its validation. -/
def setState (newState : UserPtr) : K ℤ := do
  let state ← stringToState newState
  put fun core => { core with theInstance := { core.theInstance with state := state } }
  let on ← gets fun core => isOn core.theInstance
  let ret ← probingUpdate env on
  if ret ≠ 0 then pure ret else pure 0

/-- `_add_file`. -/
def addFile (path : CString) : K ℤ := do
  let buffer ← kmalloc env
  if buffer = false then pure (-ENOMEM)
  else do
    match ← resolvePathAlloc env (some path) REFMON_FSUTILS_IGNORE_ABSOLUTE_PATHS with
    | none => pure (-EINVAL)
    | some registeredPath => do
      let present ← findEntryByRegpathAlloc env (some registeredPath)
      if present.isSome then pure (-EEXIST)
      else do
        let buffer ← kmalloc env
        if buffer = false then pure (-ENOMEM)
        else do
          match ← resolvePathAlloc env (some path)
              (REFMON_FSUTILS_RESOLVE_LINKS ||| REFMON_FSUTILS_IGNORE_ABSOLUTE_PATHS) with
          | none => pure (-EINVAL)
          | some resolvedPath => do
            let inoRegistered ← extractInoNoFromPath env path
            if inoRegistered = REFMON_NO_INO_NO then pure (-EINVAL)
            else do
              let inoResolved ← extractInoNoFromPath env resolvedPath
              if inoResolved = REFMON_NO_INO_NO then pure (-EINVAL)
              else do
                let node ← kmalloc env
                if node = false then pure (-ENOMEM)
                else do
                  put fun core => { core with theInstance := { core.theInstance with
                    registry := core.theInstance.registry ++
                      [⟨⟨registeredPath, inoRegistered⟩, ⟨resolvedPath, inoResolved⟩⟩] } }
                  pure 0

/-- The common tail of the handlers: release the lock and return. -/
def tail (ret : ℤ) : K ℤ := do
  spinInstanceUnlock
  pure ret

/-- `do_set_state`. -/
def doSetState (newState : UserPtr) : K ℤ := do
  spinInstanceLock
  let ret ← safetyChecks env REFMON_SAFETY_CHECK_ROOT none
  if ret ≠ 0 then tail ret
  else do
    let valid ← isStateValid newState
    if valid = false then tail (-EINVAL)
    else do
      let ret ← setState env newState
      if ret ≠ 0 then tail ret else tail 0

/-- The checks the three reconfiguration calls ask for. -/
def reconfChecks : ℕ :=
  REFMON_SAFETY_CHECK_ROOT ||| REFMON_SAFETY_CHECK_RECONF ||| REFMON_SAFETY_CHECK_PASSWORD

/-- `do_reconf_add`. -/
def doReconfAdd (pathIn passwordIn : UserPtr) : K ℤ := do
  spinInstanceLock
  let ret ← safetyChecks env reconfChecks passwordIn
  if ret ≠ 0 then tail ret
  else do
    match ← sanitizeUserInputAlloc env pathIn with
    | none => tail (-EINVAL)
    | some buffer => do
      let safePath ← readBuffer buffer
      let ret ← addFile env safePath
      if ret ≠ 0 then tail ret else tail 0

/-- `do_reconf_rm`. -/
def doReconfRm (pathIn passwordIn : UserPtr) : K ℤ := do
  spinInstanceLock
  let ret ← safetyChecks env reconfChecks passwordIn
  if ret ≠ 0 then tail ret
  else do
    match ← sanitizeUserInputAlloc env pathIn with
    | none => tail (-EINVAL)
    | some buffer => do
      let safePath ← readBuffer buffer
      let key ← resolvePathAlloc env (some safePath) REFMON_FSUTILS_IGNORE_ABSOLUTE_PATHS
      match ← findEntryByRegpathAlloc env key with
      | none => tail (-ENOENT)
      | some found => do
        put fun core => { core with theInstance := { core.theInstance with
          registry := core.theInstance.registry.erase found } }
        tail 0

/-- `do_flush_registry`. -/
def doFlushRegistry (password : UserPtr) : K ℤ := do
  spinInstanceLock
  let ret ← safetyChecks env reconfChecks password
  if ret ≠ 0 then tail ret
  else do
    let registry ← gets fun core => core.theInstance.registry
    if registry.isEmpty then tail 0
    else do
      put fun core => { core with theInstance := { core.theInstance with
        registry := registry.foldl List.erase core.theInstance.registry } }
      tail 0

end

end Refmon
