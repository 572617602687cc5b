import Refmon.SyscallCodes

/-!
# What the command line tool reports

The four commands of `user.c` that make a system call. `syscall` returns `-1` with the error in
`errno`, or the call's result with `errno` as it was; the commands switch on `errno`, whether or not
the call has failed. A value that the reading of the proc file, or the prompt for a password, has left
there is taken for the error of a call that succeeded.
-/

namespace Refmon

def RETURN_OK : ℤ := 0

/-- The error of a system call that fails. -/
abbrev SyscallError := { err : ℤ // 1 ≤ err ∧ err ≤ 4095 }

/-- How a system call ends: it returns zero, or the negation of an error. -/
inductive SyscallResult
  | success
  | failure (err : SyscallError)

/-- Something that the tool prints: a text, or a text with the message for a value of `errno`. -/
inductive Printed
  | text (text : CString)
  | perror (text : CString) (errno : ℤ)
deriving DecidableEq

/-- What the tool meets: the text of the proc file, if it opens; the system calls, by their number
and arguments; and the value of `errno` after the file has been read, or something printed, by the
value before. -/
structure UserEnv where
  file : Option (List UInt8)
  syscall : ℤ → List CString → SyscallResult
  afterRead : ℤ → ℤ
  afterPrint : Printed → ℤ → ℤ

/-- The value of `errno`, and what has been printed. -/
structure Console where
  errno : ℤ
  output : List Printed
deriving DecidableEq

/-- Code of the tool. -/
abbrev U := StateM Console

/-- What distinguishes the commands: the index of their number, the text for a number that cannot be
had, the arguments of the call, the announcement of its success, and the errors with a text of their
own. -/
structure CommandData where
  index : Fin SC_NO
  indexError : CString
  args : List CString
  announcement : CString
  errors : List (ℤ × CString)

/-- What is printed first when a call has failed. -/
def failedText : CString := lit "An error occurred while attempting syscall:\n"

section Commands

variable (env : UserEnv)

def UserEnv.print (printed : Printed) : U Unit :=
  modify fun console => ⟨env.afterPrint printed console.errno, console.output ++ [printed]⟩

def UserEnv.printf (text : CString) : U Unit := env.print (.text text)

def UserEnv.perror (text : CString) : U Unit := do
  let console ← get
  env.print (.perror text console.errno)

/-- `syscall` of the C library. -/
def UserEnv.call (number : ℤ) (args : List CString) : U ℤ :=
  match env.syscall number args with
  | .success => pure 0
  | .failure err => do
    modify fun console => { console with errno := err }
    pure (-1)

/-- `get_syscall_index`, with what it prints. -/
def UserEnv.getSyscallIndex (index : Fin SC_NO) : U ℤ := do
  modify fun console => { console with errno := env.afterRead console.errno }
  match env.file with
  | none => do
    env.perror (lit "Error while trying to open syscall codes proc file")
    pure (-1)
  | some text =>
    match scanCodes SC_NO text with
    | none => do
      env.perror (lit "Error while reading from syscall codes proc file")
      pure (-EINVAL)
    | some codes => pure (codes.getD index 0)

/-- The switch with which a command ends. -/
def UserEnv.report (command : CommandData) : U ℤ := do
  let console ← get
  if - console.errno = 0 then do
    env.printf command.announcement
    pure RETURN_OK
  else do
    match command.errors.lookup (- console.errno) with
    | some text => env.printf text
    | none => env.perror (lit "Unexpected error")
    let console ← get
    pure (- console.errno)

/-- What the commands have in common. -/
def UserEnv.run (command : CommandData) : U ℤ := do
  let syscallIndex ← env.getSyscallIndex command.index
  if syscallIndex < 0 then do
    env.printf command.indexError
    pure syscallIndex
  else do
    let ret ← env.call syscallIndex command.args
    if ret ≠ 0 then do
      env.printf failedText
      env.report command
    else env.report command

end Commands

/-- A command with what it is given. -/
inductive UserCall
  | setState (newState : CString)
  | reconfAdd (path password : CString)
  | reconfRm (path password : CString)
  | flush (password : CString)

/-- What the commands on paths print for the errors that both of them know. -/
def pathErrors : List (ℤ × CString) :=
  [(-EINVAL, lit "Invalid parameter. Please check again your password and the path you submitted.\n"),
    (-EACCES, lit "Access denied. Either you are non-root or the password you prompted is wrong.\n"),
    (-ENOMEM, lit "Memory error while executing syscall.\n"),
    (-EPERM, lit "Operation not permitted. RefMon is in a non-reconfigurable state. " ++
      lit "Please change the state to either REC-OFF or REC-ON.\n")]

/-- The values of each command. -/
def UserCall.data : UserCall → CommandData
  | .setState newState =>
    { index := SC_ORDER_SET_STATE
      indexError := lit "Error while trying to get syscall code for _set_state\n"
      args := [newState]
      announcement := lit "State changed to " ++ newState ++ lit ".\n"
      errors :=
        [(-EINVAL, lit "Invalid parameter. Please make sure the state specified is either one of " ++
            lit "the followings: OFF ON REC-OFF REC-ON\n"),
          (-EACCES, lit "Access denied. This operation requires you to be root.\n")] }
  | .reconfAdd path password =>
    { index := SC_ORDER_RECONF_ADD
      indexError := lit "Error while trying to get syscall code for reconf_add\n"
      args := [path, password]
      announcement := lit "Path " ++ path ++ lit " ADDED to the reference monitor.\n"
      errors := (-EEXIST, lit "The path is already registered.\n") :: pathErrors }
  | .reconfRm path password =>
    { index := SC_ORDER_RECONF_RM
      indexError := lit "Error while trying to get syscall code for reconf_rm\n"
      args := [path, password]
      announcement := lit "Path " ++ path ++ lit " REMOVED from the reference monitor.\n"
      errors := (-ENOENT, lit "The path is not registered.\n") :: pathErrors }
  | .flush password =>
    { index := SC_ORDER_FLUSH
      indexError := lit "Error while trying to get syscall code for flush\n"
      args := [password]
      announcement := lit "Registry flushed. [*** REMEMBER: YOU ARE IN TEST MODE ***]\n"
      errors := [] }

section Tool

variable (env : UserEnv)

/-- `cmd_set_state`. -/
def cmdSetState (newState : CString) : U ℤ := env.run (UserCall.setState newState).data

/-- `cmd_reconf_add`. -/
def cmdReconfAdd (path password : CString) : U ℤ := env.run (UserCall.reconfAdd path password).data

/-- `cmd_reconf_rm`. -/
def cmdReconfRm (path password : CString) : U ℤ := env.run (UserCall.reconfRm path password).data

/-- `cmd_flush`. -/
def cmdFlush (password : CString) : U ℤ := env.run (UserCall.flush password).data

/-- The command that is called. -/
def UserCall.cmd : UserCall → U ℤ
  | .setState newState => cmdSetState env newState
  | .reconfAdd path password => cmdReconfAdd env path password
  | .reconfRm path password => cmdReconfRm env path password
  | .flush password => cmdFlush env password

end Tool

/-- The result of the system call that the command makes, if it gets the number. -/
def UserEnv.outcome (env : UserEnv) (call : UserCall) : Option SyscallResult :=
  let number := Refmon.getSyscallIndex env.file call.data.index
  if number < 0 then none else some (env.syscall number call.data.args)

/-- The command has announced its success. -/
def UserCall.Announced (call : UserCall) (console : Console) : Prop :=
  .text call.data.announcement ∈ console.output

/-- With this value of `errno` before it, the command reports the system call's own result: it returns
zero and announces success if the call succeeds, and otherwise returns the negated error and does not.
Without a call it does neither. -/
def UserEnv.Reports (env : UserEnv) (call : UserCall) (errno : ℤ) : Prop :=
  let (ret, console) := call.cmd env ⟨errno, []⟩
  match env.outcome call with
  | some .success => ret = RETURN_OK ∧ call.Announced console
  | some (.failure err) => ret = - err ∧ ¬ call.Announced console
  | none => ret ≠ RETURN_OK ∧ ¬ call.Announced console

/-- What a command prints for an error. -/
def CommandData.replyTo (command : CommandData) (errno : ℤ) : Printed :=
  match command.errors.lookup (- errno) with
  | some text => .text text
  | none => .perror (lit "Unexpected error") errno

/-- The value of `errno` after a failed call has been mentioned. -/
def UserEnv.mentioned (env : UserEnv) (err : ℤ) : ℤ :=
  env.afterPrint (.text failedText) err

/-- A call that succeeds is made while `errno` is zero; after one that fails, printing leaves `errno`
at a value other than zero first, and at the error in the end. -/
def UserEnv.KeepsErrno (env : UserEnv) (call : UserCall) (errno : ℤ) : Prop :=
  match env.outcome call with
  | some .success => env.afterRead errno = 0
  | some (.failure err) => env.mentioned err ≠ 0 ∧
      env.afterPrint (call.data.replyTo (env.mentioned err)) (env.mentioned err) = err
  | none => True

section Runs

variable (env : UserEnv)

/-- A number that can be had is the one that is parsed, and nothing is printed for it. -/
theorem getSyscallIndex_run (index : Fin SC_NO) (console : Console)
    (hindex : 0 ≤ getSyscallIndex env.file index) :
    env.getSyscallIndex index console =
      (getSyscallIndex env.file index, ⟨env.afterRead console.errno, console.output⟩) := by
  unfold getSyscallIndex at hindex ⊢
  simp only [UserEnv.getSyscallIndex]
  cases hfile : env.file with
  | none =>
    rw [hfile] at hindex
    exact absurd (show (0 : ℤ) ≤ -1 from hindex) (by decide)
  | some text =>
    rw [hfile] at hindex
    dsimp only at hindex ⊢
    cases hcodes : scanCodes SC_NO text with
    | none =>
      rw [hcodes] at hindex
      exact absurd (show (0 : ℤ) ≤ -EINVAL from hindex) (by decide)
    | some codes => rfl

/-- In any case the index is the one that is parsed, and no plain text is printed. -/
theorem getSyscallIndex_prints (index : Fin SC_NO) (console : Console) :
    ∃ errno printed, env.getSyscallIndex index console =
        (getSyscallIndex env.file index, ⟨errno, console.output ++ printed⟩) ∧
      ∀ text, .text text ∉ printed := by
  unfold getSyscallIndex
  simp only [UserEnv.getSyscallIndex]
  cases hfile : env.file with
  | none => exact ⟨_, [_], rfl, fun text h => by cases List.mem_singleton.mp h⟩
  | some text =>
    dsimp only
    cases hcodes : scanCodes SC_NO text with
    | none => exact ⟨_, [_], rfl, fun text h => by cases List.mem_singleton.mp h⟩
    | some codes =>
      refine ⟨env.afterRead console.errno, [], ?_, fun text => List.not_mem_nil⟩
      rw [List.append_nil]
      rfl

/-- The switch announces success when `errno` is zero. -/
theorem report_zero (command : CommandData) {console : Console} (h : console.errno = 0) :
    env.report command console =
      (RETURN_OK, ⟨env.afterPrint (.text command.announcement) 0,
        console.output ++ [.text command.announcement]⟩) := by
  obtain ⟨errno, output⟩ := console
  dsimp only at h
  subst h
  rfl

/-- Otherwise it prints the reply to the value, and returns what is left in `errno` then. -/
theorem report_reply (command : CommandData) {console : Console} (h : console.errno ≠ 0) :
    env.report command console =
      (- env.afterPrint (command.replyTo console.errno) console.errno,
        ⟨env.afterPrint (command.replyTo console.errno) console.errno,
          console.output ++ [command.replyTo console.errno]⟩) := by
  have hcase : ¬ - console.errno = 0 := fun hzero => h (neg_eq_zero.mp hzero)
  simp only [UserEnv.report, bind, StateT.bind, get, getThe, MonadStateOf.get, StateT.get, pure]
  rw [if_neg hcase]
  unfold CommandData.replyTo
  cases command.errors.lookup (- console.errno) <;> rfl

/-- The other texts of a command. -/
def UserCall.texts (call : UserCall) : List CString :=
  failedText :: call.data.indexError :: call.data.errors.map Prod.snd

/-- None of them begins as the announcement of success does. -/
theorem texts_ne (call : UserCall) : ∀ text ∈ call.texts, text ≠ call.data.announcement := by
  have hheads : ∀ text ∈ call.texts, text.head? ≠ call.data.announcement.head? := by
    -- neither the other texts nor the first character of the announcement depend on the arguments
    have hbare : ∀ bare ∈ [UserCall.setState [], .reconfAdd [] [], .reconfRm [] [], .flush []],
        ∀ text ∈ bare.texts, text.head? ≠ bare.data.announcement.head? := by decide +kernel
    cases call with
    | setState newState => exact hbare (.setState []) (by simp)
    | reconfAdd path password => exact hbare (.reconfAdd [] []) (by simp)
    | reconfRm path password => exact hbare (.reconfRm [] []) (by simp)
    | flush password => exact hbare (.flush []) (by simp)
  intro text hmem heq
  exact hheads text hmem (congrArg List.head? heq)

/-- No reply to an error is the announcement of success. -/
theorem replyTo_ne (call : UserCall) (errno : ℤ) :
    call.data.replyTo errno ≠ .text call.data.announcement := by
  unfold CommandData.replyTo
  cases hlookup : call.data.errors.lookup (- errno) with
  | none => exact fun h => by cases h
  | some text =>
    intro h
    obtain ⟨before, after, hsplit, -⟩ := List.lookup_eq_some_iff.mp hlookup
    have hmem : (- errno, text) ∈ call.data.errors := by
      rw [hsplit]
      exact List.mem_append_right _ List.mem_cons_self
    have htext : text ∈ call.texts :=
      List.mem_cons_of_mem _ (List.mem_cons_of_mem _ (List.mem_map_of_mem hmem))
    exact texts_ne call text htext (Printed.text.inj h)

/-- Without a number the command ends before the call. -/
theorem run_error {command : CommandData} (errno : ℤ)
    (hindex : getSyscallIndex env.file command.index < 0) :
    ∃ left printed, env.run command ⟨errno, []⟩ =
        (getSyscallIndex env.file command.index, ⟨left, printed ++ [.text command.indexError]⟩) ∧
      ∀ text, .text text ∉ printed := by
  obtain ⟨left, printed, hrun, hplain⟩ := getSyscallIndex_prints env command.index ⟨errno, []⟩
  rw [List.nil_append] at hrun
  refine ⟨env.afterPrint (.text command.indexError) left, printed, ?_, hplain⟩
  simp only [UserEnv.run, bind, StateT.bind, hrun]
  rw [if_pos hindex]
  rfl

/-- With a number, a call that succeeds is followed by the switch. -/
theorem run_success {command : CommandData} (errno : ℤ)
    (hindex : ¬ getSyscallIndex env.file command.index < 0)
    (hcall : env.syscall (getSyscallIndex env.file command.index) command.args = .success) :
    env.run command ⟨errno, []⟩ = env.report command ⟨env.afterRead errno, []⟩ := by
  have hrun := getSyscallIndex_run env command.index ⟨errno, []⟩ (not_lt.mp hindex)
  simp only [UserEnv.run, bind, StateT.bind, hrun]
  rw [if_neg hindex]
  simp only [UserEnv.call, hcall]
  rfl

/-- A call that fails is mentioned before the switch. -/
theorem run_failure {command : CommandData} {err : SyscallError} (errno : ℤ)
    (hindex : ¬ getSyscallIndex env.file command.index < 0)
    (hcall : env.syscall (getSyscallIndex env.file command.index) command.args = .failure err) :
    env.run command ⟨errno, []⟩ = env.report command ⟨env.mentioned err, [.text failedText]⟩ := by
  have hrun := getSyscallIndex_run env command.index ⟨errno, []⟩ (not_lt.mp hindex)
  simp only [UserEnv.run, bind, StateT.bind, hrun]
  rw [if_neg hindex]
  simp only [UserEnv.call, hcall]
  rfl

end Runs

/-- A command of the tool reports the system call's own result if and only if the call succeeds while
`errno` is zero, or fails and printing keeps its error in `errno`, or is not made. -/
theorem tool_reports_iff (env : UserEnv) (call : UserCall) (errno : ℤ) :
    env.Reports call errno ↔ env.KeepsErrno call errno := by
  have hcmd : call.cmd env = env.run call.data := by
    cases call <;> rfl
  unfold UserEnv.Reports UserEnv.KeepsErrno UserEnv.outcome
  rw [hcmd]
  by_cases hindex : getSyscallIndex env.file call.data.index < 0
  · obtain ⟨left, printed, hrun, hplain⟩ := run_error env errno hindex
    simp only [if_pos hindex, hrun]
    refine iff_of_true ⟨ne_of_lt hindex, fun h => ?_⟩ trivial
    rcases List.mem_append.mp h with h | h
    · exact hplain _ h
    · have htext : call.data.indexError ∈ call.texts := List.mem_cons_of_mem _ List.mem_cons_self
      exact texts_ne call _ htext (Printed.text.inj (List.mem_singleton.mp h)).symm
  · simp only [if_neg hindex]
    cases hcall : env.syscall (getSyscallIndex env.file call.data.index) call.data.args with
    | success =>
      rw [run_success env errno hindex hcall]
      by_cases hzero : env.afterRead errno = 0
      · rw [report_zero env call.data hzero]
        exact iff_of_true ⟨rfl, List.mem_append_right _ List.mem_cons_self⟩ hzero
      · rw [report_reply env call.data hzero]
        refine iff_of_false (fun h => ?_) hzero
        exact replyTo_ne call _ (List.mem_singleton.mp h.2).symm
    | failure err =>
      rw [run_failure env errno hindex hcall]
      by_cases hzero : env.mentioned err = 0
      · rw [report_zero env call.data hzero]
        exact iff_of_false (fun h => h.2 (List.mem_append_right _ List.mem_cons_self)) fun h => h.1 hzero
      · rw [report_reply env call.data hzero]
        have hsilent : ¬ call.Announced ⟨env.afterPrint (call.data.replyTo (env.mentioned err))
            (env.mentioned err), [.text failedText] ++ [call.data.replyTo (env.mentioned err)]⟩ := by
          intro h
          rcases List.mem_append.mp h with h | h
          · have htext : failedText ∈ call.texts := List.mem_cons_self
            exact texts_ne call _ htext (Printed.text.inj (List.mem_singleton.mp h)).symm
          · exact replyTo_ne call _ (List.mem_singleton.mp h).symm
        constructor
        · intro h
          exact ⟨hzero, neg_inj.mp h.1⟩
        · intro h
          exact ⟨congrArg Neg.neg h.2, hsilent⟩

section LeftOver

/-- A tool whose prints leave `errno` alone, on a system where every call succeeds. -/
def accepting : UserEnv where
  file := some (formatSyscallCodes ⟨134, 174, 177, 178⟩)
  syscall _ _ := .success
  afterRead errno := errno
  afterPrint _ errno := errno

/-- A prompt for the password that was made without a terminal has left `ENOTTY` in `errno`: the path is
added, and the tool reports an unexpected error. -/
theorem left_over_errno_reported :
    cmdReconfAdd accepting (lit "/a") (lit "ciao") ⟨25, []⟩ =
        (-25, ⟨25, [.perror (lit "Unexpected error") 25]⟩) ∧
      ¬ accepting.Reports (.reconfAdd (lit "/a") (lit "ciao")) 25 := by
  have hindex : ¬ getSyscallIndex accepting.file SC_ORDER_RECONF_ADD < 0 := by decide +kernel
  have hreply : (UserCall.reconfAdd (lit "/a") (lit "ciao")).data.replyTo 25 =
      .perror (lit "Unexpected error") 25 := by decide +kernel
  have hrun : cmdReconfAdd accepting (lit "/a") (lit "ciao") ⟨25, []⟩ =
      (-25, ⟨25, [.perror (lit "Unexpected error") 25]⟩) := by
    rw [← hreply]
    exact (run_success accepting 25 hindex rfl).trans (report_reply accepting _ (by decide))
  have hcall : accepting.outcome (.reconfAdd (lit "/a") (lit "ciao")) = some .success := by
    rw [UserEnv.outcome]
    exact if_neg hindex
  refine ⟨hrun, fun h => ?_⟩
  unfold UserEnv.Reports at h
  rw [hcall, show (UserCall.reconfAdd (lit "/a") (lit "ciao")).cmd accepting ⟨25, []⟩ = _ from hrun] at h
  exact absurd h.1 (by decide)

end LeftOver

end Refmon
