import Refmon.Calls
import Refmon.Library.OverlappingCopy
import Refmon.Memory

/-!
# Resolving a relative path in one buffer

`resolve_path_alloc` has `d_path` print the working directory to the end of a buffer of `PATH_MAX`
bytes, and then `snprintf` to the start of the same buffer, from there. Here the function is written
with its buffer; it returns what the function on strings returns.
-/

namespace Refmon

open Extents OverlappingCopy Wp

/-- `d_path` into a buffer of `PATH_MAX` bytes: where the path is, at the end, and the buffer. -/
def dPathInto (buffer : Memory) (cwd : CString) : Except ℤ (ℕ × Memory) :=
  if cwd.length + 1 > PATH_MAX then .error (-ENAMETOOLONG)
  else
    let temp := PATH_MAX - (cwd.length + 1)
    .ok (temp, buffer.write temp cwd.mem)

/-- One character of what `snprintf` prints, if it fits the size. -/
def putChar (size : ℕ) (out : Memory) (pos : ℕ) (char : UInt8) : Memory :=
  if pos < size then Function.update out pos char else out

/-- `%s` of a string that lies elsewhere. -/
def putString (size : ℕ) : List UInt8 → Memory → ℕ → Memory
  | [], out, _ => out
  | char :: rest, out, pos => putString size rest (putChar size out pos char) (pos + 1)

/-- `snprintf(out, size, "%s/%s", out + temp, workingCopy)`: the length of the text and the buffer, if
the string at `temp` ends in the buffer. `kstrdup` gives no copy so long that the length is not an
`int`. -/
def snprintfJoin (out : Memory) (size temp : ℕ) (workingCopy : CString) : Option (ℤ × Memory) :=
  match copyUntil 0 size (size - temp) out temp 0 with
  | none => none
  | some (pos, out) =>
    let out := putChar size out pos slash.val
    let out := putString size workingCopy.bytes out (pos + 1)
    let pos := pos + 1 + workingCopy.length
    -- the terminator, in the last place if the text does not fit
    let out := if pos < size then Function.update out pos 0 else Function.update out (size - 1) 0
    some (pos, out)

/-- The branch of `resolve_path_alloc` for the working directory, once `d_path` has an answer. -/
def joinCwd (retPath : Memory) (cwd workingCopy : CString) : K (Option CString) :=
  match dPathInto retPath cwd with
  | .error _ => pure none
  | .ok (temp, retPath) =>
    match snprintfJoin retPath PATH_MAX temp workingCopy with
    | none => throw .overrun
    | some (ret, retPath) =>
      if ret < 0 ∨ ret ≥ PATH_MAX then pure none
      else do
        let out ← readBuffer (retPath.region PATH_MAX)
        pure (some out)

section

variable {δ : Type} (env : Env δ)

/-- `resolve_path_alloc` with the buffer that it allocates. -/
def resolvePathAllocBuffer (buffer : Memory) (inputPath : Option CString) (flags : ℕ) :
    K (Option CString) :=
  match inputPath with
  | none => pure none
  | some path =>
    if path.length = 0 then pure none
    else do
      let workingCopy ← kmalloc env
      if workingCopy = false then pure none
      else if hasFlag flags REFMON_FSUTILS_IGNORE_ABSOLUTE_PATHS ∧ isResolved path then
        pure (some path)
      else do
        let retPath ← kmalloc env
        if retPath = false then pure none
        else if hasFlag flags REFMON_FSUTILS_RESOLVE_LINKS then do
          match ← kernPath env path true with
          | .error _ => pure none
          | .ok p => do
            match ← dentryPathRaw env p with
            | .error _ => do pathPut; pure none
            | .ok temp =>
              if temp.length ≥ PATH_MAX then do pathPut; pure none
              else do pathPut; pure (some temp)
        else do
          match ← dPath env with
          | .error _ => pure none
          | .ok cwd => joinCwd buffer cwd path

end

section Snprintf

variable {out : Memory} {text : List UInt8} {size : ℕ}

/-- A character that fits is put behind the text. -/
theorem putChar_holds (h : Holds out 0 text) (hfits : text.length < size) (char : UInt8) :
    Holds (putChar size out text.length char) 0 (text ++ [char]) := by
  intro i hi
  rw [putChar, if_pos hfits, Nat.zero_add]
  rw [List.length_append, List.length_singleton] at hi
  rcases Nat.lt_or_ge i text.length with hlt | hge
  · rw [Function.update_of_ne (by omega), List.getElem_append_left hlt, ← h i hlt, Nat.zero_add]
  · obtain rfl : i = text.length := by omega
    rw [Function.update_self, List.getElem_concat_length rfl]

/-- So is a string that fits. -/
theorem putString_holds {bytes : List UInt8} (h : Holds out 0 text)
    (hfits : text.length + bytes.length ≤ size) :
    Holds (putString size bytes out text.length) 0 (text ++ bytes) := by
  induction bytes generalizing out text with
  | nil => rwa [putString, List.append_nil]
  | cons char rest ih =>
    rw [List.length_cons] at hfits
    have hplace : text.length < size := by omega
    have hnext := ih (putChar_holds h hplace char) (by simp; omega)
    rwa [List.length_append, List.length_singleton, List.append_assoc, List.singleton_append] at hnext

end Snprintf

/-- The text `cwd/workingCopy`. -/
abbrev joined (cwd workingCopy : CString) : CString := cwd ++ slash :: workingCopy

theorem length_joined (cwd workingCopy : CString) :
    (joined cwd workingCopy).length = cwd.length + 1 + workingCopy.length := by
  rw [List.length_append, List.length_cons]
  omega

/-- What `d_path` stores is copied to the start of the buffer, although the two places can overlap:
the copy goes forwards, to a place that is not behind the one it is read from. -/
theorem copyUntil_dPath (buffer : Memory) {cwd : CString} (hfits : cwd.length < PATH_MAX) :
    ∃ out, copyUntil 0 PATH_MAX (cwd.length + 1) (buffer.write (PATH_MAX - (cwd.length + 1)) cwd.mem)
        (PATH_MAX - (cwd.length + 1)) 0 = some (cwd.length, out) ∧ Holds out 0 cwd.bytes := by
  have hlength := CString.length_bytes cwd
  have hstop : (0 : UInt8) ∉ cwd.bytes := by
    intro hmem
    obtain ⟨char, -, hchar⟩ := List.mem_map.mp hmem
    exact char.property hchar
  have hleft : cwd.bytes.length < cwd.length + 1 := by omega
  have hlimit : 0 + cwd.bytes.length ≤ PATH_MAX := by omega
  obtain ⟨out, hcopy, hholds, -⟩ := copyUntil_forwards (Nat.zero_le _)
    (write_holds buffer (PATH_MAX - (cwd.length + 1)) cwd.mem) hstop hleft hlimit
  rw [hlength, Nat.zero_add] at hcopy
  exact ⟨out, hcopy, hholds⟩

/-- The length that `snprintf` returns is that of the whole text, and a text that fits is in the buffer
with its terminator. -/
theorem snprintfJoin_dPath (buffer : Memory) {cwd : CString} (hfits : cwd.length < PATH_MAX)
    (workingCopy : CString) :
    ∃ out, snprintfJoin (buffer.write (PATH_MAX - (cwd.length + 1)) cwd.mem) PATH_MAX
        (PATH_MAX - (cwd.length + 1)) workingCopy = some (((joined cwd workingCopy).length : ℤ), out) ∧
      ((joined cwd workingCopy).length < PATH_MAX → Holds out 0 (joined cwd workingCopy).mem) := by
  obtain ⟨out, hcopy, hholds⟩ := copyUntil_dPath buffer hfits
  have hleft : PATH_MAX - (PATH_MAX - (cwd.length + 1)) = cwd.length + 1 := by omega
  have hlength := length_joined cwd workingCopy
  rw [snprintfJoin, hleft, hcopy]
  dsimp only
  rw [← hlength]
  refine ⟨_, rfl, fun hshort => ?_⟩
  rw [if_pos hshort]
  have hbytes : (joined cwd workingCopy).bytes = cwd.bytes ++ [slash.val] ++ workingCopy.bytes := by
    simp [joined, CString.bytes]
  have hcwd := CString.length_bytes cwd
  have hrest := CString.length_bytes workingCopy
  have hplace : cwd.bytes.length < PATH_MAX := by omega
  have hroom : (cwd.bytes ++ [slash.val]).length + workingCopy.bytes.length ≤ PATH_MAX := by
    rw [List.length_append, List.length_singleton]
    omega
  have hwhole := putString_holds (putChar_holds hholds hplace slash.val) hroom
  rw [List.length_append, List.length_singleton, ← hbytes, hcwd] at hwhole
  have hlast : (joined cwd workingCopy).bytes.length < PATH_MAX := by rwa [CString.length_bytes]
  have hend := putChar_holds hwhole hlast 0
  rwa [putChar, CString.length_bytes, if_pos hshort] at hend

/-- In its buffer, the branch gives the text if that fits, whatever was in the buffer before. -/
theorem joinCwd_eq (buffer : Memory) (cwd workingCopy : CString) :
    joinCwd buffer cwd workingCopy = pure (if (joined cwd workingCopy).length ≥ PATH_MAX then none
      else some (joined cwd workingCopy)) := by
  have hlength := length_joined cwd workingCopy
  rw [joinCwd, dPathInto]
  by_cases hfits : cwd.length + 1 > PATH_MAX
  · rw [if_pos hfits, if_pos (by omega)]
  · rw [if_neg hfits]
    dsimp only
    have hshort : cwd.length < PATH_MAX := by omega
    obtain ⟨out, hjoin, hholds⟩ := snprintfJoin_dPath buffer hshort workingCopy
    rw [hjoin]
    dsimp only
    by_cases hlong : (joined cwd workingCopy).length ≥ PATH_MAX
    · rw [if_pos (by omega), if_pos hlong]
    · rw [if_neg (by omega), if_neg hlong]
      have hmem : (joined cwd workingCopy).mem.length ≤ PATH_MAX := by
        rw [CString.length_mem]
        omega
      obtain ⟨rest, hregion⟩ := region_of_holds (hholds (by omega)) hmem
      rw [readBuffer, hregion, cstring_mem_append]
      rfl

section

variable {δ : Type} {env : Env δ}

/-- With its buffer, `resolve_path_alloc` returns what the function on strings returns. -/
theorem resolvePathAllocBuffer_eq (buffer : Memory) (inputPath : Option CString) (flags : ℕ) :
    resolvePathAllocBuffer env buffer inputPath flags = resolvePathAlloc env inputPath flags := by
  cases inputPath with
  | none => rfl
  | some path =>
    refine ite_congr rfl (fun _ => rfl) fun _ => ?_
    refine bind_congr fun workingCopy => ite_congr rfl (fun _ => rfl) fun _ => ?_
    refine ite_congr rfl (fun _ => rfl) fun _ => ?_
    refine bind_congr fun retPath => ite_congr rfl (fun _ => rfl) fun _ => ?_
    -- only the branch for the working directory uses the buffer
    refine ite_congr rfl (fun _ => rfl) fun _ => bind_congr fun answer => ?_
    cases answer with
    | error e => rfl
    | ok cwd =>
      dsimp only
      rw [joinCwd_eq]
      split <;> rfl

/-- An absolute path is returned as it is when the flags say so, if there is memory for its copy. -/
theorem returned_resolve_absolute (k : Kernel) {path : CString} {flags : ℕ}
    (hflag : hasFlag flags REFMON_FSUTILS_IGNORE_ABSOLUTE_PATHS = true) (habs : isResolved path = true) :
    returned (resolvePathAlloc env (some path) flags k) =
      some (if env.kmalloc k.aux.clock = true then some path else none) := by
  have hne : ¬ path.length = 0 := by
    intro hempty
    rw [List.length_eq_zero_iff.mp hempty] at habs
    cases habs
  rw [resolvePathAlloc, if_neg hne, kmalloc, ask_bind]
  cases env.kmalloc k.aux.clock with
  | false => rfl
  | true =>
    rw [if_neg Bool.true_eq_false.mp, if_pos ⟨hflag, habs⟩]
    rfl

/-- A relative path is put behind the working directory, if there is memory for its copy and for the
text, and the text fits. -/
theorem returned_resolve_relative (k : Kernel) {cwd path : CString} {flags : ℕ}
    (hlinks : hasFlag flags REFMON_FSUTILS_RESOLVE_LINKS = false)
    (hcwd : env.dPath (k.aux.clock + 2) = .ok cwd) (hne : path ≠ []) (hrel : isResolved path = false) :
    returned (resolvePathAlloc env (some path) flags k) =
      some (if env.kmalloc k.aux.clock = true ∧ env.kmalloc (k.aux.clock + 1) = true ∧
        (joined cwd path).length < PATH_MAX then some (joined cwd path) else none) := by
  rw [resolvePathAlloc, if_neg (fun hempty => hne (List.length_eq_zero_iff.mp hempty)), kmalloc, ask_bind]
  cases env.kmalloc k.aux.clock with
  | false => rfl
  | true =>
    rw [if_neg Bool.true_eq_false.mp, if_neg (by simp [hrel]), ask_bind, Kernel.tick_clock]
    cases env.kmalloc (k.aux.clock + 1) with
    | false => rfl
    | true =>
      rw [if_neg Bool.true_eq_false.mp, if_neg (by simp [hlinks]), dPath, ask_bind, Kernel.tick_clock,
        Kernel.tick_clock, hcwd]
      dsimp only
      by_cases hshort : (joined cwd path).length < PATH_MAX
      · rw [if_neg (Nat.not_le.mpr hshort), if_pos ⟨rfl, rfl, hshort⟩]
        rfl
      · rw [if_pos (Nat.not_lt.mp hshort), if_neg fun h => hshort h.2.2]
        rfl

/-- Resolved in one buffer, without following links, a relative path is the working directory, a slash
and the path, if that fits and there is memory, and else `NULL`. Resolved again, wherever that is, the
result is itself. -/
theorem relative_path_resolved (k : Kernel) (buffer : Memory) {cwd path : CString} {flags : ℕ}
    (hlinks : hasFlag flags REFMON_FSUTILS_RESOLVE_LINKS = false)
    (hcwd : env.dPath (k.aux.clock + 2) = .ok cwd) (hne : path ≠ []) (hrel : isResolved path = false) :
    returned (resolvePathAllocBuffer env buffer (some path) flags k) =
        some (if env.kmalloc k.aux.clock = true ∧ env.kmalloc (k.aux.clock + 1) = true ∧
          (joined cwd path).length < PATH_MAX then some (joined cwd path) else none) ∧
      (isResolved cwd = true → ∀ (again : Env δ) (buffer' : Memory) (flags' : ℕ) (k' : Kernel),
        hasFlag flags' REFMON_FSUTILS_IGNORE_ABSOLUTE_PATHS = true →
        returned (resolvePathAllocBuffer again buffer' (some (joined cwd path)) flags' k') =
          some (if again.kmalloc k'.aux.clock = true then some (joined cwd path) else none)) := by
  rw [resolvePathAllocBuffer_eq]
  refine ⟨returned_resolve_relative k hlinks hcwd hne hrel, ?_⟩
  intro habs again buffer' flags' k' hflag
  have hjoined : isResolved (joined cwd path) = true := by
    cases cwd with
    | nil => cases habs
    | cons char rest => exact habs
  rw [resolvePathAllocBuffer_eq]
  exact returned_resolve_absolute k' hflag hjoined

end

section Sample

/-- Root in the working directory `/d`, and in the root directory. -/
def inDirectory : Env Unit := { rootOnly.calm ciaoSha256 with dPath := fun _ => .ok (lit "/d") }

/-- The theorem on the path `f` in the directory `/d`, resolved again from the root directory. -/
theorem relative_path_resolved_inDirectory :
    returned (resolvePathAllocBuffer inDirectory (fun _ => 0) (some (lit "f")) REFMON_FSUTILS_NONE inserted) =
        some (some (lit "/d/f")) ∧
      returned (resolvePathAllocBuffer (rootOnly.calm ciaoSha256) (fun _ => 0) (some (lit "/d/f"))
        REFMON_FSUTILS_IGNORE_ABSOLUTE_PATHS inserted) = some (some (lit "/d/f")) := by
  have hcwd : inDirectory.dPath (inserted.aux.clock + 2) = .ok (lit "/d") := rfl
  have hne : lit "f" ≠ [] := by decide
  have hlinks : hasFlag REFMON_FSUTILS_NONE REFMON_FSUTILS_RESOLVE_LINKS = false := rfl
  have hboth := relative_path_resolved inserted (fun _ => 0) hlinks hcwd hne rfl
  constructor
  · rw [hboth.1]
    decide
  · rw [show lit "/d/f" = joined (lit "/d") (lit "f") by decide,
      hboth.2 rfl (rootOnly.calm ciaoSha256) (fun _ => 0) REFMON_FSUTILS_IGNORE_ABSOLUTE_PATHS inserted rfl]
    rfl

end Sample

end Refmon
