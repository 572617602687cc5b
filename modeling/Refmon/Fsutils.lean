import Refmon.Vfs

/-!
# Paths, inode numbers and the registry

The functions of `fsutils.c`. Each has one specification here; the proofs above this module
use those and do not unfold the functions.
-/

namespace Refmon

open Wp

def REFMON_SEARCH_CRIT_REGISTERED_PATH : ℕ := 0x01
def REFMON_SEARCH_CRIT_REGISTERED_INO : ℕ := 0x02
def REFMON_SEARCH_CRIT_ABSOLUTE_PATH : ℕ := 0x04
def REFMON_SEARCH_CRIT_ABSOLUTE_INO : ℕ := 0x08
def REFMON_SEARCH_CRIT_SUBDIR_CHECK : ℕ := 0x10

def REFMON_FSUTILS_RESOLVE_LINKS : ℕ := 0x01
def REFMON_FSUTILS_IGNORE_ABSOLUTE_PATHS : ℕ := 0x02
def REFMON_FSUTILS_NONE : ℕ := 0x00

/-- The path separator. -/
def slash : CChar := ⟨47, by decide⟩

/-- `is_subpath`. -/
def isSubpath (basePath subPath : CString) : Bool :=
  strncmp basePath.mem subPath.mem basePath.length == some 0 &&
    (subPath.mem[basePath.length]? == some 0 || subPath.mem[basePath.length]? == some slash.val)

/-- `is_resolved`. -/
def isResolved (path : CString) : Bool := path.head? == some slash

section

variable {δ : Type} (env : Env δ)

/-- `is_dir`: `-1` when the lookup fails. -/
def isDir (path : CString) : K ℤ := do
  match ← kernPath env path true with
  | .error _ => pure (-1)
  | .ok p => do
    let ret := if (env.inode p).isDir then 1 else 0
    pathPut
    pure ret

/-- The criteria of `search_entry` that read only the entry and the identifier. -/
def matchesFields (criteria : ℕ) (node : RegistryEntry) (path : CString) (inoNo : UInt64) : Bool :=
  (hasFlag criteria REFMON_SEARCH_CRIT_REGISTERED_PATH && matchString node.registered.path path) ||
  (hasFlag criteria REFMON_SEARCH_CRIT_REGISTERED_INO && node.registered.inoNo == inoNo) ||
  (hasFlag criteria REFMON_SEARCH_CRIT_ABSOLUTE_PATH && matchString node.resolved.path path) ||
  (hasFlag criteria REFMON_SEARCH_CRIT_ABSOLUTE_INO && node.resolved.inoNo == inoNo)

/-- The loop of `search_entry`. The directory test comes last and is skipped when an earlier
criterion holds. -/
def searchNodes (criteria : ℕ) (path : CString) (inoNo : UInt64) :
    List RegistryEntry → K (Option RegistryEntry)
  | [] => pure none
  | currNode :: rest =>
    if matchesFields criteria currNode path inoNo then pure (some currNode)
    else if hasFlag criteria REFMON_SEARCH_CRIT_SUBDIR_CHECK then do
      let dir ← isDir env currNode.resolved.path
      if dir ≠ 0 ∧ isSubpath currNode.resolved.path path then pure (some currNode)
      else searchNodes criteria path inoNo rest
    else searchNodes criteria path inoNo rest

/-- `search_entry`, on an identifier whose path may be `NULL`. -/
def searchEntry (idPath : Option CString) (idInoNo : UInt64) (criteria : ℕ) :
    K (Option RegistryEntry) := do
  let registry ← gets fun core => core.theInstance.registry
  if registry.isEmpty then pure none
  else
    match idPath with
    | none => pure none
    | some path =>
      if matchString path [] ∧ (hasFlag criteria REFMON_SEARCH_CRIT_REGISTERED_PATH ∨
          hasFlag criteria REFMON_SEARCH_CRIT_ABSOLUTE_PATH ∨
          hasFlag criteria REFMON_SEARCH_CRIT_SUBDIR_CHECK) then pure none
      else searchNodes env criteria path idInoNo registry

/-- `resolve_path_alloc`. -/
def resolvePathAlloc (inputPath : Option CString) (flags : ℕ) : K (Option CString) :=
  match inputPath with
  | none => pure none
  | some path =>
    if path.length = 0 then pure none
    else do
      let workingCopy ← kmalloc env
      if workingCopy = false then pure none
      else if hasFlag flags REFMON_FSUTILS_IGNORE_ABSOLUTE_PATHS ∧ isResolved path then
        pure (some path)
      else do
        let retPath ← kmalloc env
        if retPath = false then pure none
        else if hasFlag flags REFMON_FSUTILS_RESOLVE_LINKS then do
          match ← kernPath env path true with
          | .error _ => pure none
          | .ok p => do
            match ← dentryPathRaw env p with
            | .error _ => do pathPut; pure none
            | .ok temp =>
              if temp.length ≥ PATH_MAX then do pathPut; pure none
              else do pathPut; pure (some temp)
        else do
          match ← dPath env with
          | .error _ => pure none
          | .ok temp =>
            let out := temp ++ slash :: path
            if out.length ≥ PATH_MAX then pure none else pure (some out)

/-- `is_eligible`. -/
def isEligible (id : PathIdentifier) : K Bool := do
  let ret ← searchEntry env (some id.path) id.inoNo
    (REFMON_SEARCH_CRIT_ABSOLUTE_PATH ||| REFMON_SEARCH_CRIT_ABSOLUTE_INO |||
      REFMON_SEARCH_CRIT_SUBDIR_CHECK)
  pure ret.isSome

/-- `extract_ino_no_from_path`. The reference that `kern_path` takes is not dropped. -/
def extractInoNoFromPath (path : CString) : K UInt64 := do
  match ← kernPath env path false with
  | .error _ => pure REFMON_NO_INO_NO
  | .ok p => pure (env.inode p).ino

/-- `extract_path_from_dentry`. The error pointer of `dentry_path_raw` reaches `strcat`;
the test against `PATH_MAX` changes nothing, as both of its branches end in the same
`return`. -/
def extractPathFromDentry (dentry : δ) : K (Option CString) := do
  let buffer ← kmalloc env
  if buffer = false then pure none
  else do
    match ← dentryPathRaw env dentry with
    | .error _ => throw .errPtrDeref
    | .ok ret => pure (some ret)

/-- `find_entry_by_regpath_alloc`. -/
def findEntryByRegpathAlloc (registeredPath : Option CString) : K (Option RegistryEntry) := do
  match ← resolvePathAlloc env registeredPath REFMON_FSUTILS_IGNORE_ABSOLUTE_PATHS with
  | none => pure none
  | some solved =>
    searchEntry env (some solved) REFMON_NO_INO_NO REFMON_SEARCH_CRIT_REGISTERED_PATH

end

end Refmon
