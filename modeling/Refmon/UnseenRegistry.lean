import Refmon.Load
import Refmon.SentinelInode
import Refmon.SyscallHandlers

/-!
# What does not see the registry

The registry is read and written by the searches of `fsutils.c`, by the three calls that reconfigure
it and by `init_instance`. Everything else that the module does, it does whatever the registry is.
-/

namespace Refmon

open Wp

section Unseen

variable {δ : Type} (env : Env δ) (registry : List RegistryEntry)

/-- A global variable that is not the registry. -/
theorem blind_gets {α : Type} {view : Core → α} (h : ∀ core, view (core.withRegistry registry) = view core) :
    Blind (Kernel.withRegistry registry) (gets view) := by
  intro k
  have hview : view (k.withRegistry registry).core = view k.core := h k.core
  simp only [gets, mapState, hview]

/-- An assignment that leaves the registry as it is. -/
theorem blind_put {change : Core → Core}
    (h : ∀ core, change (core.withRegistry registry) = (change core).withRegistry registry) :
    Blind (Kernel.withRegistry registry) (put change) := by
  intro k
  have hchange : change (k.withRegistry registry).core = (change k.core).withRegistry registry := h k.core
  simp only [put, mapState, hchange]
  rfl

theorem blind_spinInstanceLock : Blind (Kernel.withRegistry registry) spinInstanceLock := by
  intro k
  have hlock : (k.withRegistry registry).lock = k.lock := rfl
  simp only [spinInstanceLock, hlock]
  cases k.lock <;> rfl

theorem blind_spinInstanceUnlock : Blind (Kernel.withRegistry registry) spinInstanceUnlock := fun _ => rfl

theorem blind_tail (ret : ℤ) : Blind (Kernel.withRegistry registry) (tail ret) :=
  (blind_spinInstanceUnlock registry).bind fun _ => Blind.pure _

section User

theorem blind_userStrlen (user : UserPtr) : Blind (Kernel.withRegistry registry) (userStrlen user) := by
  cases user with
  | none => exact Blind.throw _
  | some region =>
    refine (blind_ask registry region).bind fun bytes => ?_
    cases strlen bytes with
    | none => exact Blind.throw _
    | some n => exact Blind.pure _

theorem blind_userStrncmp (user : UserPtr) (str : CString) (n : ℕ) :
    Blind (Kernel.withRegistry registry) (userStrncmp user str n) := by
  cases user with
  | none => exact Blind.throw _
  | some region =>
    refine (blind_ask registry region).bind fun bytes => ?_
    cases strncmp bytes str.mem n with
    | none => exact Blind.throw _
    | some c => exact Blind.pure _

theorem blind_userMatchString (user : UserPtr) (str : CString) :
    Blind (Kernel.withRegistry registry) (userMatchString user str) := by
  refine (blind_userStrlen registry user).bind fun n => ?_
  refine (blind_userStrncmp registry user str n).bind fun c => ?_
  exact Blind.ite ((blind_userStrlen registry user).bind fun _ => Blind.pure _) (Blind.pure _)

theorem blind_copyFromUser (user : UserPtr) (size : ℕ) :
    Blind (Kernel.withRegistry registry) (copyFromUser user size) := by
  cases user with
  | none => exact Blind.throw _
  | some region =>
    exact (blind_ask registry region).bind fun _ => Blind.ite (Blind.pure _) (Blind.pure _)

theorem blind_readBuffer (buffer : List UInt8) : Blind (Kernel.withRegistry registry) (readBuffer buffer) := by
  unfold readBuffer
  cases cstring buffer with
  | none => exact Blind.throw _
  | some str => exact Blind.pure _

theorem blind_sanitizeUserInputAlloc (user : UserPtr) :
    Blind (Kernel.withRegistry registry) (sanitizeUserInputAlloc env user) := by
  refine (blind_userStrlen registry user).bind fun length => Blind.ite (Blind.pure _) ?_
  refine (blind_userMatchString registry user []).bind fun empty => Blind.ite (Blind.pure _) ?_
  refine (blind_ask registry _).bind fun output => Blind.ite (Blind.pure _) ?_
  exact blind_copyFromUser registry user _

end User

section Checks

theorem blind_hashgenStr (str : CString) : Blind (Kernel.withRegistry registry) (hashgenStr env str) := by
  refine (blind_ask registry _).bind fun out => Blind.ite (Blind.throw _) ?_
  refine (blind_ask registry _).bind fun shash => Blind.ite (Blind.pure _) ?_
  refine (blind_ask registry _).bind fun desc => Blind.ite (Blind.pure _) ?_
  refine (blind_ask registry _).bind fun init => Blind.ite (Blind.pure _) ?_
  refine (blind_ask registry _).bind fun update => Blind.ite (Blind.pure _) ?_
  exact (blind_ask registry _).bind fun final => Blind.ite (Blind.pure _) (Blind.pure _)

theorem blind_matchPassword (str : CString) : Blind (Kernel.withRegistry registry) (matchPassword env str) := by
  refine (blind_gets registry fun _ => rfl).bind fun password => ?_
  refine (blind_hashgenStr env registry str).bind fun str1 => ?_
  refine (blind_hashgenStr env registry str).bind fun measured => ?_
  cases str1 with
  | none => exact Blind.throw _
  | some str1 =>
    cases measured with
    | none => exact Blind.throw _
    | some measured =>
      cases password with
      | none => exact Blind.throw _
      | some password =>
        refine Blind.ite ?_ (Blind.pure _)
        refine (blind_hashgenStr env registry str).bind fun again => ?_
        cases again with
        | none => exact Blind.throw _
        | some again => exact Blind.pure _

theorem blind_rootCheck : Blind (Kernel.withRegistry registry) (rootCheck env) :=
  Blind.ite (Blind.pure _) (Blind.ite (Blind.pure _) (Blind.pure _))

theorem blind_reconfCheck : Blind (Kernel.withRegistry registry) reconfCheck := by
  refine Blind.bind ?_ fun ret => Blind.ite (Blind.pure _) (Blind.pure _)
  exact (blind_gets registry fun _ => rfl).bind fun _ => Blind.pure _

theorem blind_passwordCheck (arg : UserPtr) :
    Blind (Kernel.withRegistry registry) (passwordCheck env arg) := by
  refine (blind_sanitizeUserInputAlloc env registry arg).bind fun out => ?_
  cases out with
  | none => exact Blind.pure _
  | some buffer =>
    refine (blind_readBuffer registry buffer).bind fun safePassword => ?_
    exact (blind_matchPassword env registry safePassword).bind fun _ =>
      Blind.ite (Blind.pure _) (Blind.pure _)

theorem blind_safetyChecks (checks : ℕ) (arg : UserPtr) :
    Blind (Kernel.withRegistry registry) (safetyChecks env checks arg) := by
  refine Blind.ite (Blind.pure _) ?_
  -- a check that is not asked for counts as passed
  have hasked {check : K ℤ} {next : ℤ → K ℤ} {asked : Bool} (hcheck : Blind (Kernel.withRegistry registry) check)
      (hnext : ∀ ret, Blind (Kernel.withRegistry registry) (next ret)) :
      Blind (Kernel.withRegistry registry) (if asked = true then check >>= next else pure 0 >>= next) :=
    Blind.ite (hcheck.bind hnext) ((Blind.pure _).bind hnext)
  refine hasked (blind_rootCheck env registry) fun root => Blind.ite (Blind.pure _) ?_
  refine hasked (blind_reconfCheck registry) fun reconf => Blind.ite (Blind.pure _) ?_
  refine hasked (blind_passwordCheck env registry arg) fun password => Blind.ite (Blind.pure _) ?_
  exact Blind.ite (Blind.pure _) (Blind.pure _)

end Checks

section Files

theorem blind_resolvePathAlloc (path : Option CString) (flags : ℕ) :
    Blind (Kernel.withRegistry registry) (resolvePathAlloc env path flags) :=
  (querying_blind env registry).resolvePathAlloc path flags

theorem blind_isDir (path : CString) : Blind (Kernel.withRegistry registry) (isDir env path) :=
  (querying_blind env registry).isDir path

theorem blind_extractInoNoFromPath (path : CString) :
    Blind (Kernel.withRegistry registry) (extractInoNoFromPath env path) := by
  refine (blind_kernPath env registry path false).bind fun found => ?_
  cases found with
  | error e => exact Blind.pure _
  | ok p => exact Blind.pure _

end Files

section SetState

theorem blind_matchState (user : UserPtr) (names : List (CString × RefmonState)) :
    Blind (Kernel.withRegistry registry) (matchState user names) := by
  induction names with
  | nil => exact Blind.pure _
  | cons head rest ih =>
    exact (blind_userMatchString registry user head.1).bind fun _ => Blind.ite (Blind.pure _) ih

theorem blind_enableKretprobe (probe : Probe) :
    Blind (Kernel.withRegistry registry) (enableKretprobe env probe) :=
  Blind.ite ((blind_put registry fun _ => rfl).bind fun _ => Blind.pure _) (Blind.pure _)

theorem blind_disableKretprobe (probe : Probe) :
    Blind (Kernel.withRegistry registry) (disableKretprobe env probe) :=
  Blind.ite ((blind_put registry fun _ => rfl).bind fun _ => Blind.pure _) (Blind.pure _)

theorem blind_probingUpdate (desired : Bool) :
    Blind (Kernel.withRegistry registry) (probingUpdate env desired) := by
  cases desired with
  | false =>
    refine (blind_disableKretprobe env registry _).bind fun _ => ?_
    refine (blind_disableKretprobe env registry _).bind fun _ => ?_
    refine (blind_disableKretprobe env registry _).bind fun _ => ?_
    refine (blind_disableKretprobe env registry _).bind fun _ => ?_
    exact (blind_disableKretprobe env registry _).bind fun _ => Blind.pure _
  | true =>
    refine (blind_enableKretprobe env registry _).bind fun _ => ?_
    refine (blind_enableKretprobe env registry _).bind fun _ => ?_
    refine (blind_enableKretprobe env registry _).bind fun _ => ?_
    refine (blind_enableKretprobe env registry _).bind fun _ => ?_
    exact (blind_enableKretprobe env registry _).bind fun _ => Blind.pure _

theorem blind_setState (newState : UserPtr) :
    Blind (Kernel.withRegistry registry) (setState env newState) := by
  refine Blind.bind ((blind_matchState registry newState _).bind fun _ => Blind.pure _) fun state => ?_
  refine (blind_put registry fun _ => rfl).bind fun _ => ?_
  refine (blind_gets registry fun _ => rfl).bind fun on => ?_
  exact (blind_probingUpdate env registry on).bind fun _ => Blind.ite (Blind.pure _) (Blind.pure _)

/-- `do_set_state` works on any registry. -/
theorem blind_doSetState (newState : UserPtr) :
    Blind (Kernel.withRegistry registry) (doSetState env newState) := by
  refine (blind_spinInstanceLock registry).bind fun _ => ?_
  refine (blind_safetyChecks env registry _ none).bind fun ret => Blind.ite (blind_tail registry ret) ?_
  refine Blind.bind ((blind_matchState registry newState _).bind fun _ => Blind.pure _) fun valid => ?_
  refine Blind.ite (blind_tail registry _) ?_
  exact (blind_setState env registry newState).bind fun ret =>
    Blind.ite (blind_tail registry ret) (blind_tail registry 0)

end SetState

section Load

theorem blind_initPassword : Blind (Kernel.withRegistry registry) (initPassword env) := by
  refine (blind_hashgenStr env registry _).bind fun enc => ?_
  cases enc with
  | none => exact Blind.pure _
  | some enc => exact (blind_put registry fun _ => rfl).bind fun _ => Blind.pure _

theorem blind_createProcfiles (files : List ProcFile) :
    Blind (Kernel.withRegistry registry) (createProcfiles env files) := by
  induction files with
  | nil => exact Blind.pure _
  | cons file rest ih => exact Blind.ite ((blind_put registry fun _ => rfl).bind fun _ => ih) (Blind.pure _)

theorem blind_initSyscalls : Blind (Kernel.withRegistry registry) (initSyscalls env) := by
  refine (blind_gets registry fun _ => rfl).bind fun area => Blind.ite (Blind.pure _) ?_
  have hlast : Blind (Kernel.withRegistry registry) (do
      put fun core => { core with syscalls := core.syscalls.storeEach env.newSysCallArray }
      put fun core => { core with syscalls := { core.syscalls with syscallCodes :=
        ⟨core.syscalls.restore 0, core.syscalls.restore 1, core.syscalls.restore 2,
          core.syscalls.restore 3⟩ } }
      pure (0 : ℤ)) :=
    (blind_put registry fun _ => rfl).bind fun _ => (blind_put registry fun _ => rfl).bind fun _ => Blind.pure _
  dsimp only
  cases (getEntries HACKED_ENTRIES fun i => area.words i).2 with
  | none => exact (Blind.pure _).bind fun _ => Blind.ite (Blind.pure _) hlast
  | some written =>
    exact (blind_put registry fun _ => rfl).bind fun _ => Blind.ite (Blind.pure _) hlast

theorem blind_registerProbes (probes : List Probe) :
    Blind (Kernel.withRegistry registry) (registerProbes env probes) := by
  induction probes with
  | nil => exact Blind.pure _
  | cons probe rest ih => exact Blind.ite (Blind.pure _) ((blind_put registry fun _ => rfl).bind fun _ => ih)

theorem blind_abort (ret : ℤ) : Blind (Kernel.withRegistry registry) (abort ret) := by
  refine Blind.bind ?_ fun _ => Blind.pure _
  refine (blind_put registry fun _ => rfl).bind fun _ => ?_
  exact (blind_put registry fun _ => rfl).bind fun _ => blind_put registry fun _ => rfl

end Load

end Unseen

end Refmon
