import Refmon.CallAtomicity
import Refmon.CallErrors
import Refmon.SyscallTable
import Refmon.UserTool

/-!
# A command of the tool, down to the kernel and back

The tool reads the number of its system call from the proc file and makes the call; the kernel runs the
handler whose address the table holds at that number, and the tool reports what the handler returned.
Other calls may be made before the tool reads the number, and between its reading and its call.
-/

namespace Refmon

open Wp Runs

/-- The call that a handler gets, with strings in the memory of the process for its arguments. -/
def Command.call : Command → List CString → Option Call
  | .setState, [newState] => some (.setState (userString newState))
  | .reconfAdd, [path, password] => some (.reconfAdd (userString path) (userString password))
  | .reconfRm, [path, password] => some (.reconfRm (userString path) (userString password))
  | .flush, [password] => some (.flushRegistry (userString password))
  | _, _ => none

/-- The commands in the order of their handlers in `new_sys_call_array`. -/
def commands : List Command := [.setState, .reconfAdd, .reconfRm, .flush]

variable {δ : Type}

/-- The call of the module that a system call is: the handler whose address the table holds at its
number. -/
def SyscallArea.dispatch (area : SyscallArea) (env : Env δ) (number : ℤ) (args : List CString) : Option Call :=
  (commands.find? fun command => area.words number = env.scAddr command).bind fun command => command.call args

/-- What the C library makes of the value that a handler returned. -/
def syscallResult (ret : ℤ) : Option SyscallResult :=
  if ret = 0 then some .success
  else if h : 1 ≤ - ret ∧ - ret ≤ 4095 then some (.failure ⟨- ret, h⟩)
  else none

/-- The system calls of the tool that are calls of the module are run by the kernel. -/
def UserEnv.RunsOn (tool : UserEnv) (env : Env δ) (k : Kernel) : Prop :=
  ∀ number args call ret t, k.core.syscalls.dispatch env number args = some call →
    Event.result ⟨env, call⟩ k = .ok ret t → syscallResult ret = some (tool.syscall number args)

/-- The tool's reading of the proc file has given it the numbers that are published. -/
def UserEnv.HasRead (tool : UserEnv) (k : Kernel) : Prop :=
  ∃ count text pos, 16 ≤ count ∧
    readProcSyscalls k.core.syscalls.syscallCodes count 0 true = .ok (text, pos) ∧ tool.file = some text

/-- The command whose number a command of the tool asks for. -/
def UserCall.command : UserCall → Command
  | .setState _ => .setState
  | .reconfAdd _ _ => .reconfAdd
  | .reconfRm _ _ => .reconfRm
  | .flush _ => .flush

/-- The call that a command of the tool is meant to make. -/
def UserCall.call : UserCall → Call
  | .setState newState => .setState (userString newState)
  | .reconfAdd path password => .reconfAdd (userString path) (userString password)
  | .reconfRm path password => .reconfRm (userString path) (userString password)
  | .flush password => .flushRegistry (userString password)

/-- The system call that a command makes, as an event. -/
def UserCall.event (call : UserCall) (env : Env δ) : Event δ := ⟨env, call.call⟩

theorem UserCall.data_index (call : UserCall) : call.data.index = call.command.order := by
  cases call <;> rfl

theorem UserCall.command_call (call : UserCall) : call.command.call call.data.args = some call.call := by
  cases call <;> rfl

/-- Where the handlers have addresses of their own, a number whose entry holds one is dispatched to it. -/
theorem dispatch_eq {area : SyscallArea} {env : Env δ} {number : ℤ} {command : Command} {args : List CString}
    (hdistinct : Function.Injective env.scAddr) (h : area.words number = env.scAddr command) :
    area.dispatch env number args = command.call args := by
  have hfind : commands.find? (fun other => area.words number = env.scAddr other) = some command := by
    rw [h]
    simp only [hdistinct.eq_iff]
    cases command <;> rfl
  rw [SyscallArea.dispatch, hfind, Option.bind_some]

/-- An error of a call is an error of the C library. -/
theorem syscallResult_error {call : Call} {ret : ℤ} (h : ret ∈ call.errors) :
    ret ≠ 0 ∧ ∃ err : SyscallError, (err : ℤ) = - ret ∧ syscallResult ret = some (.failure err) := by
  have hall (call : Call) : ∀ ret ∈ call.errors, ret ≠ 0 ∧ 1 ≤ - ret ∧ - ret ≤ 4095 := by
    cases call <;> simp only [Call.errors] <;> decide
  obtain ⟨hne, hrange⟩ := hall call ret h
  exact ⟨hne, ⟨- ret, hrange⟩, rfl, by rw [syscallResult, if_neg hne, dif_pos hrange]⟩

/-- Outside the test mode, the tool has a text for every error of the call that it makes. -/
theorem replyTo_error {call : UserCall} (htest : call.command ≠ .flush) {ret : ℤ} (h : ret ∈ call.call.errors) :
    ∃ text, (ret, text) ∈ call.data.errors ∧ call.data.replyTo (- ret) = .text text := by
  have hlookup : ∃ text, call.data.errors.lookup ret = some text := by
    rw [← Option.isSome_iff_exists, List.lookup_isSome_iff]
    cases call with
    | setState newState =>
      simp [UserCall.call, Call.errors] at h
      simp [UserCall.data]
      tauto
    | reconfAdd path password =>
      simp [UserCall.call, Call.errors, checkErrors] at h
      simp [UserCall.data, pathErrors]
      tauto
    | reconfRm path password =>
      simp [UserCall.call, Call.errors, checkErrors] at h
      simp [UserCall.data, pathErrors]
      tauto
    | flush password => exact absurd rfl htest
  obtain ⟨text, htext⟩ := hlookup
  obtain ⟨before, after, hsplit, -⟩ := List.lookup_eq_some_iff.mp htext
  refine ⟨text, ?_, ?_⟩
  · rw [hsplit]
    exact List.mem_append_right _ List.mem_cons_self
  · rw [CommandData.replyTo, neg_neg, htext]

/-- Every value that a handler returns is one that the C library knows. -/
theorem syscallResult_handler {env : Env δ} {call : Call} {k t : Kernel} {ret : ℤ}
    (h : Event.result ⟨env, call⟩ k = .ok ret t) : ∃ result, syscallResult ret = some result := by
  rcases List.mem_cons.mp ((yields_handler env call).ok h) with rfl | herror
  · exact ⟨.success, rfl⟩
  · obtain ⟨-, err, -, hresult⟩ := syscallResult_error herror
    exact ⟨.failure err, hresult⟩

/-- A tool on a kernel: its calls of the module are run, and something else answers the others. -/
def Kernel.tool (k : Kernel) (env : Env δ) (file : Option (List UInt8)) (other : SyscallResult) : UserEnv where
  file := file
  syscall number args :=
    match k.core.syscalls.dispatch env number args with
    | none => other
    | some call =>
      match Event.result ⟨env, call⟩ k with
      | .ok ret _ => (syscallResult ret).getD other
      | .error _ _ => other
  afterRead errno := errno
  afterPrint _ errno := errno

/-- Such a tool runs on its kernel. -/
theorem Kernel.tool_runsOn (k : Kernel) (env : Env δ) (file : Option (List UInt8)) (other : SyscallResult) :
    (k.tool env file other).RunsOn env k := by
  intro number args call ret t hcall hret
  obtain ⟨result, hresult⟩ := syscallResult_handler hret
  simp only [Kernel.tool, hcall, hret, hresult, Option.getD_some]

section Performs

variable {ε : Type} {env₀ : Env ε} {start loaded t : Kernel} {env : Env δ} {tool : UserEnv} {call : UserCall}
  {errno ret : ℤ}

variable (call) in
/-- The tool that has read the proc file of a loaded module gets the entry of its command. -/
theorem getSyscallIndex_hasRead (hload : initModule env₀ start = .ok 0 loaded) (before : List (Event δ))
    (hread : tool.HasRead (run step before loaded)) :
    getSyscallIndex tool.file call.data.index = loaded.core.syscalls.entry call.command := by
  obtain ⟨count, text, pos, hcount, hrun, hfile⟩ := hread
  have h := progress_of_initModule hload
  have hfits := h.format_length
  rw [run_syscalls, readProcSyscalls, copyOut, if_neg (by omega), if_neg (by simp)] at hrun
  cases hrun
  rw [hfile, call.data_index]
  exact h.getSyscallIndex (fun _ => List.not_mem_nil) call.command

/-- The entries of a loaded module are numbers of system calls. -/
theorem entry_nonneg (hload : initModule env₀ start = .ok 0 loaded) (command : Command) :
    0 ≤ loaded.core.syscalls.entry command := by
  have h := progress_of_initModule hload
  cases command with
  | setState => exact (h.examined List.not_mem_nil 0).1
  | reconfAdd => exact (h.examined List.not_mem_nil 1).1
  | reconfRm => exact (h.examined List.not_mem_nil 2).1
  | flush => exact (h.examined List.not_mem_nil 3).1

/-- The system call with the number of a command's entry is the call that the command is meant to make. -/
theorem dispatch_entry (hload : initModule env₀ start = .ok 0 loaded) (events : List (Event δ))
    (haddr : env.newSysCallArray = env₀.newSysCallArray) (hdistinct : Function.Injective env.newSysCallArray)
    (call : UserCall) :
    (run step events loaded).core.syscalls.dispatch env (loaded.core.syscalls.entry call.command)
      call.data.args = some call.call := by
  have hwords := (progress_of_initModule hload).words_entry (fun _ => List.not_mem_nil) call.command
  have hsame : env₀.scAddr call.command = env.scAddr call.command := by
    cases call <;> simp only [UserCall.command, Env.scAddr, haddr]
  have hinj : Function.Injective env.scAddr := by
    intro first second heq
    cases first <;> cases second <;> first
      | rfl
      | exact absurd (hdistinct heq) (by decide)
  rw [run_syscalls, dispatch_eq hinj (hwords.trans hsame), call.command_call]

/-- A tool whose `errno` is zero at its call announces the success of that call. -/
theorem cmd_success (hindex : 0 ≤ getSyscallIndex tool.file call.data.index)
    (hcall : tool.syscall (getSyscallIndex tool.file call.data.index) call.data.args = .success)
    (hclean : tool.afterRead errno = 0) (hprints : ∀ printed errno, tool.afterPrint printed errno = errno) :
    call.cmd tool ⟨errno, []⟩ = (RETURN_OK, ⟨0, [.text call.data.announcement]⟩) := by
  have hcmd : call.cmd tool = tool.run call.data := by
    cases call <;> rfl
  rw [hcmd, run_success tool errno (not_lt.mpr hindex) hcall, hclean, report_zero tool call.data rfl, hprints]
  rfl

variable (errno) in
/-- A tool whose prints leave `errno` alone returns the error of its call, and replies to it. -/
theorem cmd_failure {err : SyscallError} (hindex : 0 ≤ getSyscallIndex tool.file call.data.index)
    (hcall : tool.syscall (getSyscallIndex tool.file call.data.index) call.data.args = .failure err)
    (hprints : ∀ printed errno, tool.afterPrint printed errno = errno) :
    call.cmd tool ⟨errno, []⟩ = (- (err : ℤ), ⟨err, [.text failedText, call.data.replyTo err]⟩) := by
  have hcmd : call.cmd tool = tool.run call.data := by
    cases call <;> rfl
  have hmentioned : tool.mentioned err = err := hprints _ _
  have hne : (err : ℤ) ≠ 0 := by
    have hpos := err.property.1
    omega
  rw [hcmd, run_failure tool errno (not_lt.mpr hindex) hcall, hmentioned, report_reply tool call.data hne, hprints]
  rfl

variable (tool call errno) in
/-- A command of the tool, on a kernel into which the module was loaded, with any calls before the tool
reads the proc file and between its reading and its own call. If `errno` is zero once the file has been
read and printing leaves it alone, the command returns zero and announces success exactly if the handler
made the change that was asked for; else it returns the error of the handler, which has changed nothing,
and prints its reply to it. Outside the test mode this is a text of its own for each error. -/
theorem tool_performs (hload : initModule env₀ start = .ok 0 loaded) (before between : List (Event δ))
    (haddr : env.newSysCallArray = env₀.newSysCallArray) (hdistinct : Function.Injective env.newSysCallArray)
    (hread : tool.HasRead (run step before loaded))
    (hruns : tool.RunsOn env (run step (before ++ between) loaded)) (hclean : tool.afterRead errno = 0)
    (hprints : ∀ printed errno, tool.afterPrint printed errno = errno)
    (hret : (call.event env).result (run step (before ++ between) loaded) = .ok ret t) :
    (ret = 0 ∧ (call.event env).Changes (run step (before ++ between) loaded) t ∧
      call.cmd tool ⟨errno, []⟩ = (RETURN_OK, ⟨0, [.text call.data.announcement]⟩)) ∨
    (ret ∈ call.call.errors ∧ Unaffected (run step (before ++ between) loaded) t ∧
      call.cmd tool ⟨errno, []⟩ = (ret, ⟨- ret, [.text failedText, call.data.replyTo (- ret)]⟩) ∧
      (call.command ≠ .flush → ∃ text, (ret, text) ∈ call.data.errors ∧ call.data.replyTo (- ret) = .text text)) := by
  have hnumber := getSyscallIndex_hasRead call hload before hread
  have hindex : 0 ≤ getSyscallIndex tool.file call.data.index := by
    rw [hnumber]
    exact entry_nonneg hload call.command
  have hresult : syscallResult ret =
      some (tool.syscall (getSyscallIndex tool.file call.data.index) call.data.args) := by
    rw [hnumber]
    exact hruns _ _ _ _ _ (dispatch_entry hload _ haddr hdistinct call) hret
  rcases List.mem_cons.mp ((yields_handler env call.call).ok hret) with rfl | herror
  · have hsuccess := Option.some.inj hresult
    exact Or.inl ⟨rfl, changes_of_result hret, cmd_success hindex hsuccess.symm hclean hprints⟩
  · obtain ⟨hne, err, herr, hfailure⟩ := syscallResult_error herror
    have hcall := Option.some.inj (hfailure.symm.trans hresult)
    have hcmd := cmd_failure errno hindex hcall.symm hprints
    rw [herr, neg_neg] at hcmd
    have hunaffected : Unaffected (run step (before ++ between) loaded) t := by
      rcases (wp_ok (wp_call (call.event env) _) hret).2 with ⟨-, hcore⟩ | ⟨hzero, -⟩
      · exact unaffected_of_core hcore
      · exact absurd hzero hne
    exact Or.inr ⟨herror, hunaffected, hcmd, fun htest => replyTo_error htest herror⟩

/-- Tools read the numbers from the text that is printed for them. -/
theorem hasRead_of_file (hload : initModule env₀ start = .ok 0 loaded) (before : List (Event δ))
    (hfile : tool.file = some (formatSyscallCodes (run step before loaded).core.syscalls.syscallCodes)) :
    tool.HasRead (run step before loaded) := by
  have hfits := (progress_of_initModule hload).format_length
  rw [run_syscalls] at hfile
  have hrun : readProcSyscalls (run step before loaded).core.syscalls.syscallCodes 16 0 true =
      .ok (formatSyscallCodes loaded.core.syscalls.syscallCodes,
        0 + (formatSyscallCodes loaded.core.syscalls.syscallCodes).length) := by
    rw [run_syscalls, readProcSyscalls, copyOut, if_neg (by omega), if_neg (by simp)]
  exact ⟨16, _, _, le_rfl, hrun, hfile⟩

end Performs

section Sample

/-- The module loaded, and then set to `REC-ON`. -/
abbrev recOnLoaded : Kernel := run step [rootSetState rootOnly REFMON_STATE_STRING_RECON] loadedCalm

/-- A tool of root on that kernel. -/
abbrev rootTool : UserEnv :=
  recOnLoaded.tool (rootOnly.calm ciaoSha256) (some (formatSyscallCodes loadedCalm.core.syscalls.syscallCodes)) .success

/-- The theorem where the module is set to `REC-ON` between the tool's reading and its addition of the root
directory. -/
theorem tool_performs_addRoot :
    cmdReconfAdd rootTool (lit "/") REFMON_DEFAULT_PASSWORD ⟨0, []⟩ =
      (RETURN_OK, ⟨0, [.text (lit "Path / ADDED to the reference monitor.\n")]⟩) := by
  have hret : ((UserCall.reconfAdd (lit "/") REFMON_DEFAULT_PASSWORD).event (rootOnly.calm ciaoSha256)).result
      (run step ([] ++ [rootSetState rootOnly REFMON_STATE_STRING_RECON]) loadedCalm) = .ok 0 _ :=
    returned_eq_some (by decide +kernel)
  have hread : rootTool.HasRead (run step ([] : List (Event Unit)) loadedCalm) := by
    apply hasRead_of_file initModule_calm
    rw [run_nil, rootTool, Kernel.tool]
  rcases tool_performs rootTool (.reconfAdd (lit "/") REFMON_DEFAULT_PASSWORD) 0 initModule_calm []
      [rootSetState rootOnly REFMON_STATE_STRING_RECON] rfl (by decide)
      hread (recOnLoaded.tool_runsOn _ _ _) rfl (fun _ _ => rfl) hret
    with ⟨-, -, hcmd⟩ | ⟨herror, -⟩
  · exact hcmd
  · exact absurd rfl (syscallResult_error herror).1

end Sample

end Refmon
