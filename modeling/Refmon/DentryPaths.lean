import Refmon.Calls
import Refmon.HookSpecs
import Refmon.Layout
import Mathlib.Data.List.Infix
import Mathlib.Tactic.Ring

/-!
# Dentries without a path

`extract_path_from_dentry` gives `NULL` when it has no memory, and what `dentry_path_raw` gives
otherwise, which is an error pointer for a dentry whose path does not fit its buffer. The hooks and
`log_handler` test for `NULL` only, so that they reach the branch for a dentry without a path exactly
when the memory was missing.
-/

namespace Refmon

open Wp

variable {δ : Type} (env : Env δ)

/-- The extraction that begins at this moment has memory and a path. -/
def HasPath (dentry : δ) (moment : ℕ) : Prop :=
  env.kmalloc moment = true ∧ ∃ path, env.dentryPathRaw (moment + 1) dentry = .ok path

/-- The extraction that begins at this moment has a path if it has memory. -/
def Printable (dentry : δ) (moment : ℕ) : Prop :=
  env.kmalloc moment = true → ∃ path, env.dentryPathRaw (moment + 1) dentry = .ok path

/-- The extraction does not fault, and gives `NULL` exactly when it has no path. -/
def ExtractsOrNull (dentry : δ) (k : Kernel) : Prop :=
  wp (extractPathFromDentry env dentry) (fun out _ => out = none ↔ ¬ HasPath env dentry k.aux.clock)
    (fun _ _ => False) k

/-- A hook lets an access happen, and does not fault. -/
def GoesAhead (hook : K ℤ) (k : Kernel) : Prop :=
  wp hook (fun ret _ => ret = KRP_GO_AHEAD) (fun _ _ => False) k

/-- The hooks that begin with the path of a dentry. -/
def dentryHooks (dentry : δ) (fFlags : UInt32) : List (K ℤ) :=
  [krpHookOpen env dentry fFlags, krpHookRm env dentry, krpHookMkdir env dentry]

section Extraction

variable {env} {dentry : δ} {k : Kernel}

/-- Without memory the extraction gives `NULL`. -/
theorem extract_of_no_memory (h : env.kmalloc k.aux.clock = false) :
    extractPathFromDentry env dentry k = .ok none k.tick := by
  rw [extractPathFromDentry, kmalloc, ask_bind, h, if_pos rfl, pure_run]

/-- With memory it gives the path. -/
theorem extract_of_path {path : CString} (h : env.kmalloc k.aux.clock = true)
    (hpath : env.dentryPathRaw (k.aux.clock + 1) dentry = .ok path) :
    extractPathFromDentry env dentry k = .ok (some path) k.tick.tick := by
  rw [extractPathFromDentry, kmalloc, ask_bind, h, if_neg Bool.true_eq_false.mp, dentryPathRaw, ask_bind,
    Kernel.tick_clock, hpath]
  rfl

/-- With memory and without a path it hands the error pointer to `strcat`. -/
theorem extract_of_error {e : ℤ} (h : env.kmalloc k.aux.clock = true)
    (herror : env.dentryPathRaw (k.aux.clock + 1) dentry = .error e) :
    extractPathFromDentry env dentry k = .error .errPtrDeref k.tick.tick := by
  rw [extractPathFromDentry, kmalloc, ask_bind, h, if_neg Bool.true_eq_false.mp, dentryPathRaw, ask_bind,
    Kernel.tick_clock, herror]
  rfl

/-- What an extraction can do. -/
theorem extract_cases (env : Env δ) (dentry : δ) (k : Kernel) :
    (¬ HasPath env dentry k.aux.clock ∧ Printable env dentry k.aux.clock ∧
        extractPathFromDentry env dentry k = .ok none k.tick) ∨
      (HasPath env dentry k.aux.clock ∧ Printable env dentry k.aux.clock ∧
        ∃ path, extractPathFromDentry env dentry k = .ok (some path) k.tick.tick) ∨
      (¬ HasPath env dentry k.aux.clock ∧ ¬ Printable env dentry k.aux.clock ∧
        extractPathFromDentry env dentry k = .error .errPtrDeref k.tick.tick) := by
  cases hmemory : env.kmalloc k.aux.clock with
  | false =>
    refine Or.inl ⟨fun h => ?_, fun h => ?_, extract_of_no_memory hmemory⟩
    · exact Bool.false_ne_true (hmemory.symm.trans h.1)
    · exact absurd (hmemory.symm.trans h) Bool.false_ne_true
  | true =>
    cases hraw : env.dentryPathRaw (k.aux.clock + 1) dentry with
    | ok path =>
      exact Or.inr (Or.inl ⟨⟨hmemory, path, hraw⟩, fun _ => ⟨path, hraw⟩, path,
        extract_of_path hmemory hraw⟩)
    | error e =>
      have hnone : ¬ ∃ path, env.dentryPathRaw (k.aux.clock + 1) dentry = .ok path := by
        rintro ⟨path, hpath⟩
        cases hraw.symm.trans hpath
      exact Or.inr (Or.inr ⟨fun h => hnone h.2, fun h => hnone (h hmemory),
        extract_of_error hmemory hraw⟩)

/-- The extraction gives `NULL` for want of a path exactly when every path it asks for is there. -/
theorem extractsOrNull_iff : ExtractsOrNull env dentry k ↔ Printable env dentry k.aux.clock := by
  unfold ExtractsOrNull wp
  rcases extract_cases env dentry k with ⟨hno, hprint, hrun⟩ | ⟨hhas, hprint, path, hrun⟩ |
    ⟨-, hprint, hrun⟩
  · rw [hrun]
    exact iff_of_true (iff_of_true rfl hno) hprint
  · rw [hrun]
    exact iff_of_true (iff_of_false (by simp) (not_not.mpr hhas)) hprint
  · rw [hrun]
    exact iff_of_false (fun h => h) hprint

/-- The name that a hook gives to a dentry is `NULL` if the extraction gives `NULL`. -/
theorem absolutePath_run {flags : ℕ} :
    (∀ t, extractPathFromDentry env dentry k = .ok none t → absolutePath env dentry flags k = .ok none t) ∧
      ∀ fault t, extractPathFromDentry env dentry k = .error fault t →
        absolutePath env dentry flags k = .error fault t := by
  constructor
  · intro t h
    rw [absolutePath, bind_of_ok h]
    rfl
  · intro fault t h
    rw [absolutePath, bind_of_error h]

theorem identify_run :
    (∀ t, extractPathFromDentry env dentry k = .ok none t → identify env dentry k = .ok none t) ∧
      ∀ fault t, extractPathFromDentry env dentry k = .error fault t →
        identify env dentry k = .error fault t := by
  constructor
  · intro t h
    rw [identify, bind_of_ok (absolutePath_run.1 t h)]
    rfl
  · intro fault t h
    rw [identify, bind_of_error (absolutePath_run.2 fault t h)]

/-- Given `NULL`, every hook lets the access happen; where the extraction faults, the hook does. -/
theorem dentryHook_run {hook : K ℤ} {fFlags : UInt32} (hhook : hook ∈ dentryHooks env dentry fFlags) :
    (∀ t, extractPathFromDentry env dentry k = .ok none t → hook k = .ok KRP_GO_AHEAD t) ∧
      ∀ fault t, extractPathFromDentry env dentry k = .error fault t → hook k = .error fault t := by
  simp only [dentryHooks, List.mem_cons, List.not_mem_nil, or_false] at hhook
  rcases hhook with rfl | rfl | rfl
  · constructor
    · intro t h
      rw [krpHookOpen, bind_of_ok (identify_run.1 t h)]
      rfl
    · intro fault t h
      rw [krpHookOpen, bind_of_error (identify_run.2 fault t h)]
  · constructor
    · intro t h
      rw [krpHookRm, bind_of_ok (identify_run.1 t h)]
      rfl
    · intro fault t h
      rw [krpHookRm, bind_of_error (identify_run.2 fault t h)]
  · constructor
    · intro t h
      rw [krpHookMkdir, bind_of_ok (absolutePath_run.1 t h)]
      rfl
    · intro fault t h
      rw [krpHookMkdir, bind_of_error (absolutePath_run.2 fault t h)]

/-- A hook lets every access to a dentry without a path happen exactly when the dentry has a path
whenever there is memory. -/
theorem goesAhead_iff {hook : K ℤ} {fFlags : UInt32} (hhook : hook ∈ dentryHooks env dentry fFlags) :
    (¬ HasPath env dentry k.aux.clock → GoesAhead hook k) ↔ Printable env dentry k.aux.clock := by
  obtain ⟨hnull, hfault⟩ := @dentryHook_run _ env dentry k _ _ hhook
  unfold GoesAhead wp
  rcases extract_cases env dentry k with ⟨hno, hprint, hrun⟩ | ⟨hhas, hprint, -⟩ | ⟨hno, hprint, hrun⟩
  · rw [hnull _ hrun]
    exact iff_of_true (fun _ => rfl) hprint
  · exact iff_of_true (fun hno => absurd hhas hno) hprint
  · rw [hfault _ _ hrun]
    exact iff_of_false (fun h => h hno) hprint

/-- `log_handler` refuses exactly the programs without a path exactly when the program has a path
whenever there is memory. -/
theorem logHandler_iff {current : Task δ} :
    wp (logHandler env current)
        (fun ret _ => ret.1 = -EINVAL ↔ env.kmalloc k.aux.clock = true ∧
          ¬ HasPath env current.exeFile (k.aux.clock + 1))
        (fun _ _ => False) k ↔
      (env.kmalloc k.aux.clock = true → Printable env current.exeFile (k.aux.clock + 1)) := by
  have hlater {t : Kernel} {path : CString} : wp (do
        let progPath ← kmalloc env
        if progPath = false then pure (-ENOMEM, none)
        else do
          let logTwork ← kmalloc env
          if logTwork = false then pure (-ENOMEM, none)
          else pure (0, some ⟨current.tgid, current.tid, current.uid, env.euid, path⟩) :
        K (ℤ × Option LogDataset))
      (fun ret _ => ret.1 ≠ -EINVAL) (fun _ _ => False) t := by
    refine wp_ask_else (fun _ _ _ => ?_) fun u _ => wp_ask_else (fun _ _ _ => ?_) fun _ _ => ?_
    · exact (by decide : -ENOMEM ≠ -EINVAL)
    · exact (by decide : -ENOMEM ≠ -EINVAL)
    · exact (by decide : 0 ≠ -EINVAL)
  rw [logHandler, wp_bind, kmalloc, wp_ask_iff]
  cases hmemory : env.kmalloc k.aux.clock with
  | false => simp [ENOMEM, EINVAL]
  | true =>
    rw [if_neg Bool.true_eq_false.mp]
    simp only [true_and, true_implies]
    rcases extract_cases env current.exeFile k.tick with ⟨hno, hprint, hrun⟩ | ⟨hhas, hprint, path, hrun⟩ |
      ⟨hno, hprint, hrun⟩
    · refine iff_of_true ?_ hprint
      unfold wp
      rw [bind_of_ok hrun]
      exact iff_of_true rfl hno
    · refine iff_of_true ?_ hprint
      rw [wp_bind]
      refine wp_of_ok hrun ?_
      refine wp_mono hlater (fun ret _ hret => iff_of_false hret (not_not.mpr hhas)) fun _ _ hF => hF
    · refine iff_of_false ?_ hprint
      unfold wp
      rw [bind_of_error hrun]
      exact fun h => h

end Extraction

/-- The extraction, the hooks and `log_handler` treat a dentry without a path as they should exactly
when it has a path whenever there is memory. -/
theorem null_branch_iff (dentry : δ) (fFlags : UInt32) (current : Task δ) (k : Kernel) :
    (ExtractsOrNull env dentry k ↔ Printable env dentry k.aux.clock) ∧
      (∀ hook ∈ dentryHooks env dentry fFlags,
        (¬ HasPath env dentry k.aux.clock → GoesAhead hook k) ↔ Printable env dentry k.aux.clock) ∧
      (wp (logHandler env current)
          (fun ret _ => ret.1 = -EINVAL ↔ env.kmalloc k.aux.clock = true ∧
            ¬ HasPath env current.exeFile (k.aux.clock + 1))
          (fun _ _ => False) k ↔
        (env.kmalloc k.aux.clock = true → Printable env current.exeFile (k.aux.clock + 1))) :=
  ⟨extractsOrNull_iff, fun _ => goesAhead_iff, logHandler_iff⟩

section NestedDirectories

/-- The names of so many directories. -/
def nestedNames (depth : ℕ) : List FileName := List.replicate depth (fileName "a")

/-- Directories, each in the one before. -/
def nested (depth : ℕ) : Layout where
  files := (nestedNames depth).inits.map fun names => (⟨0, names⟩, ⟨names.length.toUInt64 + 2, .dir⟩)
  mounts := []

variable {depth : ℕ}

theorem nested_isDir {names : List FileName} (h : names <+: nestedNames depth) :
    (nested depth).IsDir ⟨0, names⟩ := by
  have hall : ∀ e ∈ (nested depth).files, e.2.kind = .dir := by
    intro e he
    obtain ⟨_, -, rfl⟩ := List.mem_map.mp he
    rfl
  have hmem : (⟨0, names⟩, ⟨names.length.toUInt64 + 2, .dir⟩) ∈ (nested depth).files :=
    List.mem_map.mpr ⟨names, (List.mem_inits _ _).mpr h, rfl⟩
  cases hfind : (nested depth).files.find? (·.1 = ⟨0, names⟩) with
  | none => exact absurd (decide_eq_true rfl) (List.find?_eq_none.mp hfind _ hmem)
  | some e =>
    rw [Layout.IsDir, Layout.file, hfind, Option.map_some, Option.map_some,
      hall e (List.mem_of_find?_eq_some hfind)]

/-- What processes in the root directory see. -/
def nestedView (depth : ℕ) : Vfs Dentry :=
  (nested depth).view ⟨[], Layout.node_of_isDir (nested_isDir List.nil_prefix)⟩

/-- The directory that is inside all the others. -/
def innermost (depth : ℕ) : Dentry := ⟨0, nestedNames depth⟩

theorem length_join_replicate (n : ℕ) (name : FileName) :
    (SlashPath.join (List.replicate n name)).length = n * (name.val.length + 1) := by
  induction n with
  | zero => simp
  | succ n ih =>
    rw [List.replicate_succ, SlashPath.join_cons, List.length_append, List.length_cons, ih]
    ring

/-- The path of a directory that is nested too deep does not fit a buffer. -/
theorem innermost_path (hdeep : PATH_MAX ≤ 2 * depth) :
    (nestedView depth).dentryPathRaw (innermost depth) = .error (-ENAMETOOLONG) := by
  have hmax : 0 < PATH_MAX := by decide
  have hname : (fileName "a").val.length = 1 := by decide
  have hne : nestedNames depth ≠ [] := by
    rw [nestedNames, Ne, List.replicate_eq_nil_iff]
    omega
  have hlength : (pathOf (nestedNames depth)).length = 2 * depth := by
    rw [pathOf, SlashPath.render_of_ne_nil hne, nestedNames, length_join_replicate, hname]
    ring
  change Layout.print (nestedNames depth) = _
  rw [Layout.print, hlength, if_neg (by omega)]

/-- Such a directory has no path, and to open it or to run it hands the error pointer to `strcat`. -/
theorem nested_faults (hdeep : PATH_MAX ≤ 2 * depth) (k : Kernel) :
    ¬ HasPath ((nestedView depth).calm ciaoSha256) (innermost depth) k.aux.clock ∧
      (∀ hook ∈ dentryHooks ((nestedView depth).calm ciaoSha256) (innermost depth) O_WRONLY,
        ∃ t, hook k = .error .errPtrDeref t) ∧
      ∃ t, logHandler ((nestedView depth).calm ciaoSha256) ⟨innermost depth, 1, 1, 0⟩ k =
        .error .errPtrDeref t := by
  have hextract (k : Kernel) :
      extractPathFromDentry ((nestedView depth).calm ciaoSha256) (innermost depth) k =
        .error .errPtrDeref k.tick.tick :=
    extract_of_error rfl (innermost_path hdeep)
  refine ⟨?_, ?_, ?_⟩
  · rintro ⟨-, path, hpath⟩
    cases (innermost_path hdeep).symm.trans hpath
  · intro hook hhook
    exact ⟨_, (dentryHook_run hhook).2 _ _ (hextract k)⟩
  · refine ⟨k.tick.tick.tick, ?_⟩
    rw [logHandler, kmalloc, ask_bind]
    exact bind_of_error (hextract k.tick) _

/-- A directory below 2047 others has no path. It is not treated as one without a path: every hook
faults, and so does `log_handler`. -/
theorem innermost_not_null :
    (nested 2048).IsDir (innermost 2048) ∧
      ¬ HasPath ((nestedView 2048).calm ciaoSha256) (innermost 2048) inserted.aux.clock ∧
      (∀ hook ∈ dentryHooks ((nestedView 2048).calm ciaoSha256) (innermost 2048) O_WRONLY,
        ∃ t, hook inserted = .error .errPtrDeref t) ∧
      ∃ t, logHandler ((nestedView 2048).calm ciaoSha256) ⟨innermost 2048, 1, 1, 0⟩ inserted =
        .error .errPtrDeref t := by
  have hdeep : PATH_MAX ≤ 2 * 2048 := by decide +kernel
  exact ⟨nested_isDir (List.prefix_refl _), nested_faults hdeep inserted⟩

end NestedDirectories

end Refmon
