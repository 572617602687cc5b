import Refmon.Library.Decimal
import Refmon.Calls

/-!
# The numbers of the system calls, printed and parsed

The text of `refmon-syscallcodes`, which `_read_proc` of `procio.c` prints from `syscall_codes`,
and `get_syscall_index` of the user tool, which parses it. The tool's `fopen` reads the proc
file into a buffer of its own, from position zero on.
-/

namespace Refmon

open Decimal

def EFAULT : ℤ := 14

/-- The text that `_read_proc` prints for `refmon-syscallcodes`: `"%d\n%d\n%d\n%d\n"`. -/
def formatSyscallCodes (codes : RegisteredSyscallCodes) : List UInt8 :=
  [codes.scCodeSetState, codes.scCodeReconfAdd, codes.scCodeReconfRm, codes.scCodeFlush].flatMap
    fun code => print code ++ [10]

/-- The end of `_read_proc`, once the text is in `out`: what reaches the user, and the new
position. A read into a buffer that is too small gives nothing. -/
def copyOut (out : List UInt8) (count pos : ℕ) (copies : Bool) : Except ℤ (List UInt8 × ℕ) :=
  if pos > 0 ∨ count < out.length then .ok ([], pos)
  else if copies = false then .error (-EFAULT)
  else .ok (out, pos + out.length)

/-- `read_proc_syscalls`. -/
def readProcSyscalls (codes : RegisteredSyscallCodes) (count pos : ℕ) (copies : Bool) :
    Except ℤ (List UInt8 × ℕ) :=
  copyOut (formatSyscallCodes codes) count pos copies

/-- The commands of the user tool. -/
inductive Command
  | setState
  | reconfAdd
  | reconfRm
  | flush
deriving DecidableEq

/-- The command whose handler a call is. -/
def Call.command : Call → Command
  | .setState _ => .setState
  | .reconfAdd _ _ => .reconfAdd
  | .reconfRm _ _ => .reconfRm
  | .flushRegistry _ => .flush

/-- `sc_addr_*`: the address of a command's handler, which `init_syscalls` puts at this index of
`new_sys_call_array`. -/
def Env.scAddr {δ : Type} (env : Env δ) : Command → UInt64
  | .setState => env.newSysCallArray 0
  | .reconfAdd => env.newSysCallArray 1
  | .reconfRm => env.newSysCallArray 2
  | .flush => env.newSysCallArray 3

abbrev SC_NO : ℕ := 4
def SC_ORDER_SET_STATE : Fin SC_NO := 0
def SC_ORDER_RECONF_ADD : Fin SC_NO := 1
def SC_ORDER_RECONF_RM : Fin SC_NO := 2
def SC_ORDER_FLUSH : Fin SC_NO := 3

/-- The index that a command of the tool asks for. -/
def Command.order : Command → Fin SC_NO
  | .setState => SC_ORDER_SET_STATE
  | .reconfAdd => SC_ORDER_RECONF_ADD
  | .reconfRm => SC_ORDER_RECONF_RM
  | .flush => SC_ORDER_FLUSH

/-- `isspace`. -/
def isSpace (char : UInt8) : Bool := char.toNat = 32 || (9 ≤ char.toNat && char.toNat ≤ 13)

/-- `fscanf(file, "%d\n", &code)`: the code and the input behind it, if one is converted. -/
def fscanfCode (input : List UInt8) : Option (ℤ × List UInt8) :=
  (scan (input.dropWhile isSpace)).map fun (code, rest) => (code, rest.dropWhile isSpace)

/-- The loop of `get_syscall_index`. -/
def scanCodes : ℕ → List UInt8 → Option (List ℤ)
  | 0, _ => some []
  | count + 1, input =>
    match fscanfCode input with
    | none => none
    | some (code, rest) => (scanCodes count rest).map (List.cons code)

/-- `get_syscall_index`, on the text of the proc file if the file opens. -/
def getSyscallIndex (file : Option (List UInt8)) (index : Fin SC_NO) : ℤ :=
  match file with
  | none => -1
  | some text =>
    match scanCodes SC_NO text with
    | none => -EINVAL
    | some codes => codes.getD index 0

/-- A printed integer does not start with a blank. -/
theorem dropWhile_isSpace_print (code : ℤ) (rest : List UInt8) :
    (print code ++ rest).dropWhile isSpace = print code ++ rest := by
  have hhead : ∀ char ∈ (print code ++ rest).head?, isSpace char = false := by
    intro char hchar
    unfold print at hchar
    split at hchar
    · cases hchar
      rfl
    · by_contra hspace
      rw [Bool.not_eq_false] at hspace
      have hnot : isDigit char = false := by
        unfold isSpace at hspace
        unfold isDigit
        simp at hspace ⊢
        omega
      exact printNat_head _ char hnot hchar
  cases htext : print code ++ rest with
  | nil => rfl
  | cons char chars => rw [List.dropWhile_cons_of_neg (by simp [hhead char (by rw [htext]; rfl)])]

/-- A code that was printed on a line of its own is parsed, with the blanks behind it. -/
theorem fscanfCode_print (code : ℤ) (rest : List UInt8) :
    fscanfCode (print code ++ 10 :: rest) = some (code, rest.dropWhile isSpace) := by
  have hline : ∀ char ∈ (10 :: rest : List UInt8).head?, isDigit char = false := by
    intro char hchar
    cases hchar
    rfl
  rw [fscanfCode, dropWhile_isSpace_print, scan_print code hline, Option.map_some]
  rfl

/-- A number of printed codes are parsed in order. -/
theorem scanCodes_print (codes : List ℤ) :
    scanCodes codes.length (codes.flatMap fun code => print code ++ [10]) = some codes := by
  induction codes with
  | nil => rfl
  | cons code codes ih =>
    have hstart : (codes.flatMap fun code => print code ++ [10]).dropWhile isSpace =
        codes.flatMap fun code => print code ++ [10] := by
      cases codes with
      | nil => rfl
      | cons next codes =>
        rw [List.flatMap_cons, List.append_assoc, dropWhile_isSpace_print]
    have hfirst := fscanfCode_print code (codes.flatMap fun code => print code ++ [10])
    rw [hstart] at hfirst
    rw [List.length_cons, List.flatMap_cons, List.append_assoc, List.singleton_append, scanCodes, hfirst]
    dsimp only
    rw [ih, Option.map_some]

/-- The tool gets from the text the number that was published for the command. -/
theorem getSyscallIndex_format (codes : RegisteredSyscallCodes) (index : Fin SC_NO) :
    getSyscallIndex (some (formatSyscallCodes codes)) index =
      [codes.scCodeSetState, codes.scCodeReconfAdd, codes.scCodeReconfRm, codes.scCodeFlush].getD
        index 0 := by
  have hscan : scanCodes SC_NO (formatSyscallCodes codes) =
      some [codes.scCodeSetState, codes.scCodeReconfAdd, codes.scCodeReconfRm, codes.scCodeFlush] :=
    scanCodes_print
      [codes.scCodeSetState, codes.scCodeReconfAdd, codes.scCodeReconfRm, codes.scCodeFlush]
  simp only [getSyscallIndex, hscan]

end Refmon
