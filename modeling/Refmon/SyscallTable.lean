import Refmon.Authorisation
import Refmon.LoadProgress
import Refmon.SyscallCodes

/-!
# The system-call table from load to unload

A load that succeeds publishes, for each command, the number of the entry that holds the handler
of that command, and the user tool reads back the number that was published. The unload puts the
old address back in the same entries.
-/

namespace Refmon

open Wp Runs Decimal

variable {δ : Type} {env : Env δ} {k t : Kernel}

/-- The entry that a load has given to a command. -/
def SyscallArea.entry (area : SyscallArea) : Command → ℤ
  | .setState => area.restore 0
  | .reconfAdd => area.restore 1
  | .reconfRm => area.restore 2
  | .flush => area.restore 3

/-- Once the numbers are published, the tool gets the entry of the command it asks for. -/
theorem Progress.getSyscallIndex {before now : SyscallArea} {remaining : List LoadStep}
    (h : Progress env before now remaining) (hassigned : ∀ i, .assignCode i ∉ remaining)
    (command : Command) :
    getSyscallIndex (some (formatSyscallCodes now.syscallCodes)) command.order = now.entry command := by
  rw [getSyscallIndex_format]
  cases command with
  | setState => exact h.code 0 (hassigned 0)
  | reconfAdd => exact h.code 1 (hassigned 1)
  | reconfRm => exact h.code 2 (hassigned 2)
  | flush => exact h.code 3 (hassigned 3)

/-- Once the handlers are stored, the entry of a command holds its handler. -/
theorem Progress.words_entry {before now : SyscallArea} {remaining : List LoadStep}
    (h : Progress env before now remaining) (hstored : ∀ i, .storeEntry i ∉ remaining)
    (command : Command) : now.words (now.entry command) = env.scAddr command := by
  cases command with
  | setState => exact h.handler 0 (hstored 0)
  | reconfAdd => exact h.handler 1 (hstored 1)
  | reconfRm => exact h.handler 2 (hstored 2)
  | flush => exact h.handler 3 (hstored 3)

/-- The commands have entries of their own. -/
theorem Progress.entry_injective {before now : SyscallArea} (h : Progress env before now []) :
    Function.Injective now.entry := by
  have hinj := h.injective List.not_mem_nil
  intro first second heq
  cases first <;> cases second <;> first
    | rfl
    | exact absurd (hinj heq) (by decide)

/-- A number with at most three digits is printed with at most three characters. -/
theorem print_length_le {code : ℤ} (hnonneg : 0 ≤ code) (hlt : code < TABLE_ENTRIES) :
    (print code).length ≤ 3 := by
  obtain ⟨n, rfl⟩ := Int.eq_ofNat_of_zero_le hnonneg
  have hall : ∀ n < TABLE_ENTRIES, (printNat n).length ≤ 3 := by decide +kernel
  rw [print, if_neg (by omega), Int.natAbs_natCast]
  exact hall n (by omega)

/-- The text of the published numbers fits sixteen bytes. -/
theorem Progress.format_length {before now : SyscallArea} (h : Progress env before now []) :
    (formatSyscallCodes now.syscallCodes).length ≤ 16 := by
  have hshort (i : Fin HACKED_ENTRIES) : (print (now.syscallCodes.get i)).length ≤ 3 := by
    rw [h.code i List.not_mem_nil]
    obtain ⟨hnonneg, hlt⟩ := h.examined List.not_mem_nil i
    exact print_length_le hnonneg hlt
  have h0 := hshort 0
  have h1 := hshort 1
  have h2 := hshort 2
  have h3 := hshort 3
  simp only [RegisteredSyscallCodes.get] at h0 h1 h2 h3
  simp only [formatSyscallCodes, List.flatMap_cons, List.flatMap_nil, List.length_append,
    List.length_cons, List.length_nil]
  omega

/-- After a load that succeeds, a read of `refmon-syscallcodes` into a buffer of at least sixteen
bytes gives a text from which the tool parses, for each command, the number of the table entry
that holds the handler of that command. The four numbers are distinct, and the entries with
other numbers are as they were. -/
theorem tool_agrees_on_numbers (hload : initModule env k = .ok 0 t) (count : ℕ) (hcount : 16 ≤ count) :
    ∃ text pos, readProcSyscalls t.core.syscalls.syscallCodes count 0 true = .ok (text, pos) ∧
      (∀ command : Command, t.core.syscalls.words (getSyscallIndex (some text) command.order) =
        env.scAddr command) ∧
      (∀ first second : Command, getSyscallIndex (some text) first.order =
        getSyscallIndex (some text) second.order → first = second) ∧
      ∀ number, (∀ command : Command, getSyscallIndex (some text) command.order ≠ number) →
        t.core.syscalls.words number = k.core.syscalls.words number := by
  have h := progress_of_initModule hload
  have hfits := h.format_length
  have hindex := h.getSyscallIndex fun _ => List.not_mem_nil
  have hread : readProcSyscalls t.core.syscalls.syscallCodes count 0 true =
      .ok (formatSyscallCodes t.core.syscalls.syscallCodes,
        0 + (formatSyscallCodes t.core.syscalls.syscallCodes).length) := by
    rw [readProcSyscalls, copyOut, if_neg (by omega), if_neg (by simp)]
  refine ⟨_, _, hread, ?_, ?_, ?_⟩
  · intro command
    rw [hindex]
    exact h.words_entry (fun _ => List.not_mem_nil) command
  · intro first second heq
    rw [hindex, hindex] at heq
    exact h.entry_injective heq
  · intro number hother
    apply h.others List.not_mem_nil
    intro i heq
    have hcommand : ∃ command, t.core.syscalls.entry command = t.core.syscalls.restore i := by
      fin_cases i
      · exact ⟨.setState, rfl⟩
      · exact ⟨.reconfAdd, rfl⟩
      · exact ⟨.reconfRm, rfl⟩
      · exact ⟨.flush, rfl⟩
    obtain ⟨command, hentry⟩ := hcommand
    exact hother command (by rw [hindex, hentry, heq])

/-- No run of calls touches the table. -/
theorem run_syscalls (events : List (Event δ)) (k : Kernel) :
    (run step events k).core.syscalls = k.core.syscalls := by
  apply run_preserves (I := fun s : Kernel => s.core.syscalls = k.core.syscalls) step _ rfl
  intro e s hs
  rw [(step_frame e s).1, hs]

/-- The unload puts the saved address back. -/
theorem cleanupModule_words (k : Kernel) :
    ∃ u, cleanupModule k = .ok ⟨⟩ u ∧ u.core.syscalls.words =
      storeEach k.core.syscalls.restore (fun _ => k.core.syscalls.theNiSyscall) k.core.syscalls.words :=
  ⟨_, rfl, rfl⟩

/-- After a load that succeeds, any calls, and the unload, every word of the table is what it was
before the load. -/
theorem unload_undoes_load {ε : Type} (hload : initModule env k = .ok 0 t) (events : List (Event ε)) :
    ∃ u, cleanupModule (run step events t) = .ok ⟨⟩ u ∧ u.core.syscalls.words = k.core.syscalls.words := by
  obtain ⟨u, hrun, hwords⟩ := cleanupModule_words (run step events t)
  refine ⟨u, hrun, ?_⟩
  rw [hwords, run_syscalls]
  rcases wp_ok (wp_initModule env k) hload with ⟨-, hloaded⟩ | ⟨hne, -⟩
  · exact hloaded.syscalls
  · exact absurd rfl hne

section Sample

/-- A load on a table that keeps one address everywhere. -/
def loadedCalm : Kernel := after (initModule (rootOnly.calm ciaoSha256) inserted)

theorem initModule_calm : initModule (rootOnly.calm ciaoSha256) inserted = .ok 0 loadedCalm :=
  returned_eq_some (by decide +kernel)

/-- The theorem on the numbers for that load. -/
theorem tool_agrees_on_numbers_calm :
    ∃ text pos, readProcSyscalls loadedCalm.core.syscalls.syscallCodes 1024 0 true = .ok (text, pos) ∧
      ∀ command : Command, loadedCalm.core.syscalls.words (getSyscallIndex (some text) command.order) =
        (rootOnly.calm ciaoSha256).scAddr command := by
  obtain ⟨text, pos, hread, hwords, -, -⟩ := tool_agrees_on_numbers initModule_calm 1024 (by omega)
  exact ⟨text, pos, hread, hwords⟩

/-- The theorem on the unload for that load and a call that sets the state. -/
theorem unload_undoes_load_calm :
    ∃ u, cleanupModule (run step [rootSetState rootOnly REFMON_STATE_STRING_ON] loadedCalm) = .ok ⟨⟩ u ∧
      u.core.syscalls.words = inserted.core.syscalls.words :=
  unload_undoes_load initModule_calm _

end Sample

end Refmon
