import Refmon.LastSet
import Refmon.RegistryListing
import Refmon.UserTool

/-!
# What the tool prints of the module

`cmd_opinfo` of `user.c` prints what `cat` prints of the proc files for the state and the registry. It
gets this through a pipe, a line or a full buffer at a time, and prints each piece up to its first NUL.
-/

namespace Refmon

open Wp Runs ReadLoop Decimal Fitting

/-- The text that `_read_proc` prints for `refmon-state`: `"%s\n"`, of a name or of `NULL`. -/
def formatState (state : RefmonState) : List UInt8 := ((stateToString state).getD (lit "(null)")).bytes ++ [10]

/-- `read_proc_state`. -/
def readProcState (state : RefmonState) (count pos : ℕ) (copies : Bool) : Except ℤ (List UInt8 × ℕ) :=
  copyOut (formatState state) count pos copies

/-- The size of the buffer that `read_procfile_from_user` fills. -/
def PIPE_BUF : ℕ := 4096

def PROC_USER_STATE_FILE : CString := lit "/proc/refmon-state"
def PROC_USER_LIST_FILE : CString := lit "/proc/refmon-list"

/-- The first bytes of the input, up to and with a newline. -/
def lineOf : ℕ → List UInt8 → List UInt8
  | 0, _ => []
  | _, [] => []
  | size + 1, byte :: input => if byte = 10 then [byte] else byte :: lineOf size input

/-- `fgets` with a buffer of some size: what it stores before its terminator, and the input behind it. -/
def fgets (size : ℕ) (input : List UInt8) : Option (List UInt8 × List UInt8) :=
  if input = [] then none else some (lineOf (size - 1) input, input.drop (lineOf (size - 1) input).length)

theorem prefix_lineOf (size : ℕ) (input : List UInt8) : lineOf size input <+: input := by
  induction size generalizing input with
  | zero => exact List.nil_prefix
  | succ size ih =>
    cases input with
    | nil => exact List.nil_prefix
    | cons byte input =>
      rw [lineOf]
      split
      · exact List.cons_prefix_cons.mpr ⟨rfl, List.nil_prefix⟩
      · exact List.cons_prefix_cons.mpr ⟨rfl, ih input⟩

/-- What is read is the beginning of the input, and something of it. -/
theorem fgets_some {input line rest : List UInt8} (h : fgets PIPE_BUF input = some (line, rest)) :
    input = line ++ rest ∧ rest.length < input.length := by
  unfold fgets at h
  split at h
  · cases h
  · rename_i hne
    obtain ⟨rfl, rfl⟩ := Prod.mk.inj (Option.some.inj h)
    have hsplit := List.prefix_iff_eq_append.mp (prefix_lineOf (PIPE_BUF - 1) input)
    refine ⟨hsplit.symm, ?_⟩
    obtain ⟨byte, input, rfl⟩ := List.exists_cons_of_ne_nil hne
    have hpos : 0 < (lineOf (PIPE_BUF - 1) (byte :: input)).length := by
      have hsize : PIPE_BUF - 1 = 4094 + 1 := rfl
      rw [hsize, lineOf]
      split <;> simp
    rw [List.length_drop]
    simp only [List.length_cons]
    omega

/-- What the loop of `read_procfile_from_user` prints of the output of its pipe, call by call. -/
def echo (input : List UInt8) : List CString :=
  match h : fgets PIPE_BUF input with
  | none => []
  | some (line, rest) => (cstring (line ++ [0])).getD [] :: echo rest
termination_by input.length
decreasing_by exact (fgets_some h).2

/-- What runs the pipe: whether the allocation succeeds, and by the file the error with which the pipe is
not opened or not closed, and what `cat` prints. -/
structure Pipe where
  calloc : Bool
  popen : CString → Option ℤ
  cat : CString → List UInt8
  pclose : CString → Option ℤ

section Commands

variable (env : UserEnv) (pipe : Pipe)

/-- A library function has failed. -/
def setErrno (err : ℤ) : U Unit := modify fun console => { console with errno := err }

/-- `read_procfile_from_user`. -/
def readProcfileFromUser (filepath : CString) : U ℤ := do
  if pipe.calloc = false then do
    setErrno ENOMEM
    env.perror (lit "Error while trying to allocate memory\n")
    pure (-ENOMEM)
  else
    match pipe.popen filepath with
    | some err => do
      setErrno err
      env.perror (lit "Error while reading procfile")
      pure (- EIO)
    | none => do
      (echo (pipe.cat filepath)).forM fun output => env.printf output
      match pipe.pclose filepath with
      | some err => do
        setErrno err
        env.perror (lit "Error while closing procfile")
        pure (- EIO)
      | none => pure 0

/-- `cmd_print_state`. -/
def cmdPrintState : U ℤ := do
  let ret ← readProcfileFromUser env pipe PROC_USER_STATE_FILE
  if ret < 0 then do
    env.perror (lit "Error while reading proc state file")
    let console ← get
    pure (- console.errno)
  else pure RETURN_OK

/-- `cmd_print_registry`. -/
def cmdPrintRegistry : U ℤ := do
  let ret ← readProcfileFromUser env pipe PROC_USER_LIST_FILE
  if ret < 0 then do
    env.perror (lit "Error while reading proc list file")
    pure (- ret)
  else pure RETURN_OK

/-- The bytes of a source literal that is not all ASCII. -/
def utf8 (text : String) : CString :=
  text.toUTF8.data.toList.filterMap fun byte => if h : byte ≠ 0 then some ⟨byte, h⟩ else none

/-- What `cmd_opinfo` prints first. -/
def infoText : CString :=
  utf8 ("░░░░░░░░░░░░░░░░░░░\n" ++ "░░               ░░\n" ++ "░░  R e f M o n  ░░\n" ++
    "░░               ░░\n" ++ "░░░░░░░░░░░░░░░░░░░\n" ++ "Info about current operations:\n" ++
    "-----------------------------\n" ++ "State: ")

/-- `cmd_opinfo`. -/
def cmdOpinfo : U ℤ := do
  env.printf infoText
  let ret ← cmdPrintState env pipe
  if ret ≠ 0 then pure ret
  else do
    env.printf (lit "Pathlist:\n")
    let ret ← cmdPrintRegistry env pipe
    if ret ≠ 0 then pure ret else pure RETURN_OK

end Commands

section Echo

/-- Output without a zero is printed as it is. -/
theorem echo_bytes (input : List UInt8) (h : 0 ∉ input) : ((echo input).map CString.bytes).flatten = input := by
  fun_induction echo input with
  | case1 input hread =>
    unfold fgets at hread
    split at hread
    · rename_i hnil
      rw [hnil]
      rfl
    · cases hread
  | case2 input line rest hread ih =>
    obtain ⟨hsplit, -⟩ := fgets_some hread
    rw [hsplit, List.mem_append, not_or] at h
    obtain ⟨text, rfl⟩ := exists_bytes_eq h.1
    have hcstring := cstring_mem_append text []
    rw [List.append_nil, CString.mem] at hcstring
    rw [List.map_cons, List.flatten_cons, ih h.2, hcstring, Option.getD_some, ← hsplit]

/-- The text for the state has no zero in it. -/
theorem formatState_free (state : RefmonState) : 0 ∉ formatState state := by
  rw [formatState, List.mem_append, not_or]
  exact ⟨zero_not_mem_bytes _, by decide⟩

theorem zero_not_mem_printNat (n : ℕ) : 0 ∉ printNat n := by
  intro h
  cases printNat_isDigit h

/-- The lines of the registry have no zero in them. -/
theorem shownLines_free (registry : List RegistryEntry) : 0 ∉ (shownLines registry).flatten := by
  have hline (nodeP : RegistryEntry) : 0 ∉ registryLine nodeP := by
    simp [registryLine, zero_not_mem_printNat, zero_not_mem_bytes]
  intro hzero
  obtain ⟨line, hmem, hzero⟩ := List.mem_flatten.mp hzero
  have hshown := (fitting_longest (by decide : 0 < PAGE_SIZE) (registry.map registryLine)).isPrefix
  obtain ⟨nodeP, -, rfl⟩ := List.mem_map.mp (hshown.subset hmem)
  exact hline nodeP hzero

end Echo

section Read

/-- A read of `refmon-state` whose copy succeeds. -/
def readState (state : RefmonState) (count pos : ℕ) : Except ℤ (List UInt8 × ℕ) :=
  readProcState state count pos true

theorem length_formatState (state : RefmonState) : (formatState state).length ≤ PAGE_SIZE := by
  cases state with
  | other value => exact (by decide : (formatState (.other 0)).length ≤ PAGE_SIZE)
  | _ => decide

/-- Reads of pages, until one gives nothing, give the text for the state. -/
theorem readState_readsAll (state : RefmonState) {counts : ℕ → ℕ} (hcounts : PAGE_SIZE ≤ counts 0) :
    ReadsAll (readState state) counts 0 0 (formatState state) := by
  have hlength := length_formatState state
  have hne : formatState state ≠ [] := List.append_ne_nil_of_right_ne_nil _ (by decide)
  have hpos := List.length_pos_iff.mpr hne
  have hfirst : readState state (counts 0) 0 = .ok (formatState state, 0 + (formatState state).length) := by
    rw [readState, readProcState, copyOut, if_neg (by omega), if_neg (by simp)]
  have hsecond : readState state (counts 1) (0 + (formatState state).length) =
      .ok ([], 0 + (formatState state).length) := by
    rw [readState, readProcState, copyOut, if_pos (by omega)]
  have hall := ReadsAll.more hfirst hne (by omega) (.done hsecond)
  rwa [List.append_nil] at hall

/-- Reads of pages of the registry's file give the lines that are shown. -/
theorem readList_page (registry : List RegistryEntry) (stack : ℕ → Memory) {counts : ℕ → ℕ}
    (hcounts : PAGE_SIZE ≤ counts 0) :
    ReadsAll (readList registry stack) counts 0 (0, 0) (shownLines registry).flatten := by
  have hbelow := (fitting_longest (by decide : 0 < PAGE_SIZE) (registry.map registryLine)).below
  have hreads := readList_readsAll registry stack counts
  have hfits : (shownLines registry).flatten.length ≤ counts 0 := hbelow.le.trans hcounts
  rwa [if_pos hfits] at hreads

end Read

section Opinfo

variable {α β : Type}

/-- Whatever is in `errno`, the code of the tool returns this value and puts this behind the output. -/
def Prints (m : U α) (ret : α) (printed : List Printed) : Prop :=
  ∀ console : Console, ∃ errno, m console = (ret, ⟨errno, console.output ++ printed⟩)

theorem Prints.pure (ret : α) : Prints (pure ret : U α) ret [] := by
  intro console
  exact ⟨console.errno, by rw [List.append_nil]; rfl⟩

/-- One after the other, they print one behind the other. -/
theorem Prints.bind {m : U α} {f : α → U β} {first : α} {ret : β} {printed later : List Printed}
    (hm : Prints m first printed) (hf : Prints (f first) ret later) : Prints (m >>= f) ret (printed ++ later) := by
  intro console
  obtain ⟨errno, hfirst⟩ := hm console
  obtain ⟨left, hlater⟩ := hf ⟨errno, console.output ++ printed⟩
  rw [List.append_assoc] at hlater
  exact ⟨left, by simp only [Bind.bind, StateT.bind, hfirst, hlater]⟩

/-- What only returns after something was printed. -/
theorem Prints.last {m : U α} {f : α → U β} {first : α} {ret : β} {printed : List Printed}
    (hm : Prints m first printed) (hf : f first = Pure.pure ret) : Prints (m >>= f) ret printed := by
  have hnothing : Prints (f first) ret [] := by
    rw [hf]
    exact Prints.pure ret
  have hboth := hm.bind hnothing
  rwa [List.append_nil] at hboth

variable (env : UserEnv) {pipe : Pipe} {filepath : CString}

theorem prints_printf (text : CString) : Prints (env.printf text) ⟨⟩ [.text text] :=
  fun console => ⟨env.afterPrint (.text text) console.errno, rfl⟩

/-- The loop prints its pieces in order. -/
theorem prints_forM (texts : List CString) :
    Prints (texts.forM fun text => env.printf text) ⟨⟩ (texts.map .text) := by
  induction texts with
  | nil => exact Prints.pure _
  | cons text texts ih => exact (prints_printf env text).bind ih

/-- A pipe that works prints what `cat` prints, in pieces. -/
theorem prints_readProcfileFromUser (hcalloc : pipe.calloc = true) (hpopen : pipe.popen filepath = none)
    (hpclose : pipe.pclose filepath = none) :
    Prints (readProcfileFromUser env pipe filepath) 0 ((echo (pipe.cat filepath)).map .text) := by
  unfold readProcfileFromUser
  simp only [hcalloc, hpopen, hpclose, Bool.true_eq_false, if_false]
  exact (prints_forM env (echo (pipe.cat filepath))).last rfl

/-- Where nothing fails, `cmd_opinfo` prints what `cat` prints of the two files. -/
theorem prints_cmdOpinfo (hcalloc : pipe.calloc = true)
    (hworks : ∀ filepath, pipe.popen filepath = none ∧ pipe.pclose filepath = none) :
    Prints (cmdOpinfo env pipe) RETURN_OK
      (.text infoText :: ((echo (pipe.cat PROC_USER_STATE_FILE)).map .text ++
        .text (lit "Pathlist:\n") :: (echo (pipe.cat PROC_USER_LIST_FILE)).map .text)) := by
  have hread (filepath : CString) :=
    prints_readProcfileFromUser env hcalloc (hworks filepath).1 (hworks filepath).2
  have hstate : Prints (cmdPrintState env pipe) RETURN_OK ((echo (pipe.cat PROC_USER_STATE_FILE)).map .text) :=
    (hread _).last rfl
  have hlist : Prints (cmdPrintRegistry env pipe) RETURN_OK ((echo (pipe.cat PROC_USER_LIST_FILE)).map .text) :=
    (hread _).last rfl
  exact (prints_printf env infoText).bind
    (hstate.bind ((prints_printf env (lit "Pathlist:\n")).bind (hlist.last rfl)))

/-- The name of the state where this was set last, from `OFF` on. -/
def NamedBy (name : CString) : Option UserPtr → Prop
  | none => name = REFMON_STATE_STRING_OFF
  | some newState => PointsTo newState name

/-- `refmon --opinfo` after a run of calls from the load of the module on, with other calls between the
reading of its two files. Where no library call fails and `cat` reads a page at least, it returns zero. It
prints, whole, the name that the last call to set the state was given, or `OFF` before the first; and
the lines of the longest prefix of the registry that are shorter than a page together. -/
theorem opinfo_shows {δ : Type} {sha256 : List UInt8 → Digest} {k : Kernel} (hk : Booted δ sha256 k)
    (events later : List (Event δ))
    (hstable : ∀ e ∈ events, ∀ newState, e.call = .setState newState → newState.Stable)
    (hcalloc : pipe.calloc = true)
    (hworks : ∀ filepath, pipe.popen filepath = none ∧ pipe.pclose filepath = none)
    {counts counts' : ℕ → ℕ} (hcounts : PAGE_SIZE ≤ counts 0) (hcounts' : PAGE_SIZE ≤ counts' 0)
    {stack : ℕ → Memory}
    (hstate : ReadsAll (readState (run step events k).core.theInstance.state) counts 0 0
      (pipe.cat PROC_USER_STATE_FILE))
    (hlist : ReadsAll (readList (run step (events ++ later) k).core.theInstance.registry stack) counts' 0 (0, 0)
      (pipe.cat PROC_USER_LIST_FILE)) (errno : ℤ) :
    ∃ (name : CString) (shown : List (List UInt8)) (left : ℤ) (stateTexts listTexts : List CString),
      NamedBy name (lastSet events k) ∧
      LongestBelow PAGE_SIZE
        ((run step (events ++ later) k).core.theInstance.registry.map registryLine) shown ∧
      cmdOpinfo env pipe ⟨errno, []⟩ = (RETURN_OK, ⟨left, .text infoText ::
        (stateTexts.map .text ++ .text (lit "Pathlist:\n") :: listTexts.map .text)⟩) ∧
      (stateTexts.map CString.bytes).flatten = name.bytes ++ [10] ∧
      (listTexts.map CString.bytes).flatten = shown.flatten := by
  set state := (run step events k).core.theInstance.state with hrun
  have hname : ∃ name, stateToString state = some name ∧ NamedBy name (lastSet events k) := by
    have hlast := state_lastSet events k hstable
    rw [← hrun] at hlast
    cases hsets : lastSet events k with
    | none =>
      rw [hsets] at hlast
      have hoff : state = .OFF := by rw [hlast, hk.loaded.2.1]
      exact ⟨_, by rw [hoff]; rfl, rfl⟩
    | some newState =>
      rw [hsets] at hlast
      obtain ⟨name, hpoints, hname⟩ := hlast
      exact ⟨name, hname, hpoints⟩
  obtain ⟨name, hname, hset⟩ := hname
  obtain ⟨left, hprints⟩ := prints_cmdOpinfo env hcalloc hworks ⟨errno, []⟩
  refine ⟨name, shownLines _, left, _, _, hset, fitting_longest (by decide) _, hprints, ?_, ?_⟩
  · rw [hstate.unique (readState_readsAll state hcounts), echo_bytes _ (formatState_free state), formatState,
      hname, Option.getD_some]
  · rw [hlist.unique (readList_page _ stack hcounts'), echo_bytes _ (shownLines_free _)]

end Opinfo

section Sample

/-- A pipe that works. -/
def workingPipe (state : RefmonState) (registry : List RegistryEntry) : Pipe where
  calloc := true
  popen _ := none
  cat filepath := if filepath = PROC_USER_STATE_FILE then formatState state else (shownLines registry).flatten
  pclose _ := none

/-- It prints what is read of the two files. -/
theorem workingPipe_cat (state : RefmonState) (registry : List RegistryEntry) (stack : ℕ → Memory)
    (counts : ℕ → ℕ) (hcounts : PAGE_SIZE ≤ counts 0) :
    ReadsAll (readState state) counts 0 0 ((workingPipe state registry).cat PROC_USER_STATE_FILE) ∧
      ReadsAll (readList registry stack) counts 0 (0, 0) ((workingPipe state registry).cat PROC_USER_LIST_FILE) := by
  have hother : PROC_USER_LIST_FILE ≠ PROC_USER_STATE_FILE := by decide
  simp only [workingPipe, if_true, if_neg hother]
  exact ⟨readState_readsAll state hcounts, readList_page registry stack hcounts⟩

/-- The theorem where the state was set to `REC-ON`, and the root directory is added between the two
readings. -/
theorem opinfo_shows_recOn :
    ∃ (name : CString) (left : ℤ) (stateTexts listTexts : List CString),
      PointsTo (userString REFMON_STATE_STRING_RECON) name ∧
      cmdOpinfo accepting (workingPipe (run step [rootSetState rootOnly REFMON_STATE_STRING_RECON]
          (booted rootOnly)).core.theInstance.state
        (run step ([rootSetState rootOnly REFMON_STATE_STRING_RECON] ++ [rootAdd rootOnly (lit "/")])
          (booted rootOnly)).core.theInstance.registry) ⟨0, []⟩ =
        (RETURN_OK, ⟨left, .text infoText ::
          (stateTexts.map .text ++ .text (lit "Pathlist:\n") :: listTexts.map .text)⟩) ∧
      (stateTexts.map CString.bytes).flatten = name.bytes ++ [10] := by
  have hsets : lastSet [rootSetState rootOnly REFMON_STATE_STRING_RECON] (booted rootOnly) =
      some (userString REFMON_STATE_STRING_RECON) := by
    have hret : returned ((rootSetState rootOnly REFMON_STATE_STRING_RECON).result (booted rootOnly)) = some 0 := by
      decide +kernel
    rw [lastSet, lastSet, Option.none_or, Event.sets, hret]
    rfl
  have hstable : ∀ e ∈ [rootSetState rootOnly REFMON_STATE_STRING_RECON], ∀ newState,
      e.call = .setState newState → newState.Stable := by
    intro e he newState hcall
    rw [List.mem_singleton.mp he] at hcall
    cases hcall
    exact userString_stable _
  generalize [rootSetState rootOnly REFMON_STATE_STRING_RECON] = events at hsets hstable ⊢
  have hcat := workingPipe_cat (run step events (booted rootOnly)).core.theInstance.state
    (run step (events ++ [rootAdd rootOnly (lit "/")]) (booted rootOnly)).core.theInstance.registry
    (fun _ _ => 0) (fun _ => PAGE_SIZE) le_rfl
  obtain ⟨name, shown, left, stateTexts, listTexts, hset, -, hcmd, hstate, -⟩ :=
    opinfo_shows accepting booted_rootOnly events [rootAdd rootOnly (lit "/")] hstable rfl
      (fun _ => ⟨rfl, rfl⟩) le_rfl le_rfl hcat.1 hcat.2 0
  rw [hsets] at hset
  exact ⟨name, left, stateTexts, listTexts, hset, hcmd, hstate⟩

end Sample

end Refmon
