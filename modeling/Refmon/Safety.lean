import Refmon.Hash
import Refmon.State

/-!
# Checks before a request

The functions of `safety.c`: who calls, in which state, with which password. The sanitised
copy of a user string is a byte buffer; the string functions its callers apply to it fault
when the copy holds no terminator.
-/

namespace Refmon

open Wp

def REFMON_SAFETY_CHECK_NONE : ℕ := 0x0
def REFMON_SAFETY_CHECK_ROOT : ℕ := 0x1
def REFMON_SAFETY_CHECK_RECONF : ℕ := 0x2
def REFMON_SAFETY_CHECK_PASSWORD : ℕ := 0x4

/-- `GLOBAL_ROOT_UID`. -/
def GLOBAL_ROOT_UID : UInt32 := 0

/-- `copy_from_user` of `size` bytes, failing when the mapped region is shorter. -/
def copyFromUser (user : UserPtr) (size : ℕ) : K (Option (List UInt8)) :=
  match user with
  | none => throw .nullDeref
  | some region => do
    let bytes ← ask region
    if size ≤ bytes.length then pure (some (bytes.take size)) else pure none

/-- A string function reads a kernel buffer. -/
def readBuffer (buffer : List UInt8) : K CString :=
  match cstring buffer with
  | none => throw .overrun
  | some str => pure str

section

variable {δ : Type} (env : Env δ)

/-- `is_euid_root`. The comparison of the unsigned `euid` with zero is never true. -/
def isEuidRoot : ℤ :=
  if env.euid < 0 then env.euid.toNat
  else if env.euid = GLOBAL_ROOT_UID then 1 else 0

/-- `sanitize_user_input_alloc`. The length goes through an `int`, and is measured before
the test for `NULL`. -/
def sanitizeUserInputAlloc (unsafeInput : UserPtr) : K (Option (List UInt8)) := do
  let length ← userStrlen unsafeInput
  let outsize : ℤ := Int.bmod (length + 1) (2 ^ 32)
  if unsafeInput.isNone then pure none
  else do
    let empty ← userMatchString unsafeInput []
    if empty then pure none
    else do
      let safeOutput ← kmalloc env
      if safeOutput = false then pure none
      else copyFromUser unsafeInput (outsize % 2 ^ 64).toNat

/-- `check_reconf`. -/
def checkReconf : K ℤ := do
  let reconf ← gets fun core => isReconf core.theInstance
  pure (if reconf then 0 else -1)

/-- The comparison of the password's hash in `safety_checks`. The macro evaluates
`hashgen_str` three times. -/
def matchPassword (safePassword : CString) : K Bool := do
  let password ← gets fun core => core.theInstance.password
  let str1 ← hashgenStr env safePassword
  let measured ← hashgenStr env safePassword
  match str1, measured, password with
  | some str1, some measured, some password =>
    if strncmp str1.mem password.mem measured.length = some 0 then do
      match ← hashgenStr env safePassword with
      | none => throw .nullDeref
      | some again => pure (again.length == password.length)
    else pure false
  | _, _, _ => throw .nullDeref

/-- The root check of `safety_checks`. -/
def rootCheck : K ℤ :=
  let isRoot := isEuidRoot env
  if isRoot < 0 then pure (-EINVAL)
  else if isRoot = 0 then pure (-EACCES)
  else pure 0

/-- The reconfigurability check of `safety_checks`. -/
def reconfCheck : K ℤ := do
  let ret ← checkReconf
  if ret ≠ 0 then pure (-EPERM) else pure 0

/-- The password check of `safety_checks`. -/
def passwordCheck (arg : UserPtr) : K ℤ := do
  match ← sanitizeUserInputAlloc env arg with
  | none => pure (-EINVAL)
  | some buffer => do
    let safePassword ← readBuffer buffer
    let same ← matchPassword env safePassword
    if same = false then pure (-EACCES) else pure 0

/-- `safety_checks`: the requested checks in order, the first failure decides. -/
def safetyChecks (checks : ℕ) (arg : UserPtr) : K ℤ :=
  if hasFlag checks REFMON_SAFETY_CHECK_NONE then pure 0
  else do
    let root ← if hasFlag checks REFMON_SAFETY_CHECK_ROOT then rootCheck env else pure 0
    if root ≠ 0 then pure root
    else do
      let reconf ← if hasFlag checks REFMON_SAFETY_CHECK_RECONF then reconfCheck else pure 0
      if reconf ≠ 0 then pure reconf
      else do
        let password ←
          if hasFlag checks REFMON_SAFETY_CHECK_PASSWORD then passwordCheck env arg else pure 0
        if password ≠ 0 then pure password
        else
          let caught := (hasFlag checks REFMON_SAFETY_CHECK_ROOT).toNat +
            (hasFlag checks REFMON_SAFETY_CHECK_RECONF).toNat +
            (hasFlag checks REFMON_SAFETY_CHECK_PASSWORD).toNat
          if caught = 0 then pure (-ENOTRECOVERABLE) else pure 0

end

end Refmon
