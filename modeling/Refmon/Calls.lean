import Refmon.CallSpecs
import Refmon.FailedLoad
import Refmon.Library.Runs

/-!
# Runs of the module

A run starts from the state that a successful `init_module` leaves and makes system calls one
after the other, each with any arguments and in any surrounding kernel: the handlers hold
`spinlock_inst` throughout, so no two of them overlap. A call that faults ends without
releasing the lock, and the run goes on from the state it leaves.
-/

namespace Refmon

open Wp Runs

/-- A system call with its arguments. -/
inductive Call
  | setState (newState : UserPtr)
  | reconfAdd (pathIn passwordIn : UserPtr)
  | reconfRm (pathIn passwordIn : UserPtr)
  | flushRegistry (password : UserPtr)

/-- The handler of a call. -/
def Call.handler {δ : Type} (env : Env δ) : Call → K ℤ
  | .setState newState => doSetState env newState
  | .reconfAdd pathIn passwordIn => doReconfAdd env pathIn passwordIn
  | .reconfRm pathIn passwordIn => doReconfRm env pathIn passwordIn
  | .flushRegistry password => doFlushRegistry env password

/-- The password argument of a call, if it takes one. -/
def Call.password : Call → UserPtr
  | .setState _ => none
  | .reconfAdd _ passwordIn => passwordIn
  | .reconfRm _ passwordIn => passwordIn
  | .flushRegistry password => password

/-- A call and the kernel it is made in. -/
structure Event (δ : Type) where
  env : Env δ
  call : Call

variable {δ : Type}

/-- How a call ends. -/
def Event.result (e : Event δ) (k : Kernel) : EStateM.Result Fault Kernel ℤ :=
  e.call.handler e.env k

/-- The state that a call leaves, however it ends. -/
def step (e : Event δ) (k : Kernel) : Kernel := after (e.result k)

/-- The module has just been loaded into a kernel whose hash is `sha256`. -/
def Booted (δ : Type) (sha256 : List UInt8 → Digest) (k : Kernel) : Prop :=
  ∃ (env : Env δ) (start : Kernel), env.sha256 = sha256 ∧ Fresh start ∧ initModule env start = .ok 0 k

/-- The states reached from a successful load by calls that meet a condition, in kernels with
one hash function. -/
def ReachableBy (sha256 : List UInt8 → Digest) (C : Event δ → Kernel → Prop) (k : Kernel) : Prop :=
  Reach step (Booted δ sha256) (fun e k => e.env.sha256 = sha256 ∧ C e k) k

/-- The states reached from a successful load by any calls. -/
def Reachable (δ : Type) (sha256 : List UInt8 → Digest) (k : Kernel) : Prop :=
  ReachableBy sha256 (fun (_ : Event δ) _ => True) k

/-- What some calls reach, any calls reach. -/
theorem ReachableBy.reachable {sha256 : List UInt8 → Digest} {C : Event δ → Kernel → Prop} {k : Kernel}
    (h : ReachableBy sha256 C k) : Reachable δ sha256 k :=
  Reach.mono h fun _ _ hC => ⟨hC.1, trivial⟩

/-- The change that each call makes when it returns zero. -/
def Event.Changes (e : Event δ) (k t : Kernel) : Prop :=
  match e.call with
  | .setState newState => e.env.euid = GLOBAL_ROOT_UID ∧ ∃ validated m state u,
      matchState newState stateNames k.locked = .ok (some validated) m ∧
      stringToState newState m = .ok state u ∧ t.core = k.core.withState e.env state
  | .reconfAdd pathIn passwordIn =>
      Reconfigured e.env passwordIn k t (Appends e.env pathIn k.core.theInstance.registry)
  | .reconfRm pathIn passwordIn =>
      Reconfigured e.env passwordIn k t (Deletes e.env pathIn k.core.theInstance.registry)
  | .flushRegistry password => Reconfigured e.env password k t fun after => after = []

/-- What a call does: an error or a fault without an effect, or its change. -/
theorem wp_call (e : Event δ) (k : Kernel) :
    wp (e.call.handler e.env) (Settles k (e.Changes k)) (fun _ t => t.core = k.core) k := by
  obtain ⟨env, call⟩ := e
  cases call with
  | setState newState => exact wp_doSetState newState
  | reconfAdd pathIn passwordIn => exact wp_doReconfAdd pathIn passwordIn
  | reconfRm pathIn passwordIn => exact wp_doReconfRm pathIn passwordIn
  | flushRegistry password => exact wp_doFlushRegistry password

/-- A step changes nothing that lasts, or makes the change of a call that returns zero. -/
theorem step_cases (e : Event δ) (k : Kernel) :
    (step e k).core = k.core ∨ e.result k = .ok 0 (step e k) ∧ e.Changes k (step e k) := by
  have hcall := wp_call e k
  unfold step Event.result
  cases hrun : e.call.handler e.env k with
  | ok ret t =>
    rcases (wp_ok hcall hrun).2 with ⟨-, hcore⟩ | ⟨hret, hchanges⟩
    · exact Or.inl hcore
    · rw [hret]
      exact Or.inr ⟨rfl, hchanges⟩
  | error fault t =>
    have hcore := wp_error hcall hrun
    exact Or.inl hcore

/-- A call that returns zero has made its change. -/
theorem changes_of_result {e : Event δ} {k t : Kernel} (h : e.result k = .ok 0 t) : e.Changes k t := by
  rcases (wp_ok (wp_call e k) h).2 with ⟨hret, -⟩ | ⟨-, hchanges⟩
  · exact absurd rfl hret
  · exact hchanges

/-- What a load leaves, whatever it started from. -/
theorem Booted.loaded {sha256 : List UInt8 → Digest} {k : Kernel} (h : Booted δ sha256 k) :
    k.lock = false ∧ k.core.theInstance =
        ⟨.OFF, [], some (hexconv (sha256 REFMON_DEFAULT_PASSWORD.bytes))⟩ ∧
      (∀ probe, k.core.registered probe = true) ∧ ∀ probe, k.core.enabled probe = false := by
  obtain ⟨env, start, hsha, hfresh, hrun⟩ := h
  rcases wp_ok (wp_initModule env start) hrun with ⟨-, hloaded⟩ | ⟨hne, -⟩
  · refine ⟨hloaded.lock.trans hfresh.lock, ?_, hloaded.registered, fun probe => ?_⟩
    · rw [hloaded.theInstance, hsha]
    · rw [hloaded.enabled]
      exact hfresh.enabled probe
  · exact absurd rfl hne

section Sample

/-- The SHA-256 digest of the default password. -/
def ciaoDigest : Digest :=
  #v[0xb1, 0x33, 0xa0, 0xc0, 0xe9, 0xbe, 0xe3, 0xbe, 0x20, 0x16, 0x3d, 0x2a, 0xd3, 0x1d, 0x62, 0x48,
    0xdb, 0x29, 0x2a, 0xa6, 0xdc, 0xb1, 0xee, 0x08, 0x7a, 0x2a, 0xa5, 0x0e, 0x0f, 0xc7, 0x5a, 0xe2]

/-- A hash function that is SHA-256 on the default password. -/
def ciaoSha256 (bytes : List UInt8) : Digest :=
  if bytes = REFMON_DEFAULT_PASSWORD.bytes then ciaoDigest else Vector.replicate _ 0

/-- The module loaded in a kernel where nothing fails. -/
def booted (fs : Vfs δ) : Kernel := after (initModule (fs.calm ciaoSha256) inserted)

/-- A load that returns zero boots the module. -/
theorem booted_of_returned {fs : Vfs δ}
    (h : returned (initModule (fs.calm ciaoSha256) inserted) = some 0) :
    Booted δ ciaoSha256 (booted fs) :=
  ⟨fs.calm ciaoSha256, inserted, rfl, inserted_fresh, returned_eq_some h⟩

/-- A user pointer to a string that nobody writes to. -/
def userString (s : CString) : UserPtr := some fun _ => s.mem

theorem userString_stable (s : CString) : (userString s).Stable := by
  intro region h m n
  rw [userString, Option.some.injEq] at h
  rw [← h]

theorem userString_pointsTo (s : CString) : PointsTo (userString s) s :=
  ⟨_, rfl, fun _ _ => ⟨[], (List.append_nil _).symm⟩⟩

/-- The calls of root in a namespace where nothing fails. -/
def rootCall (fs : Vfs δ) (call : Call) : Event δ := ⟨fs.calm ciaoSha256, call⟩

/-- Root sets the state with this name. -/
def rootSetState (fs : Vfs δ) (name : CString) : Event δ :=
  rootCall fs (.setState (userString name))

/-- Root adds a path with the default password. -/
def rootAdd (fs : Vfs δ) (path : CString) : Event δ :=
  rootCall fs (.reconfAdd (userString path) (userString REFMON_DEFAULT_PASSWORD))

/-- Root removes a path with the default password. -/
def rootRm (fs : Vfs δ) (path : CString) : Event δ :=
  rootCall fs (.reconfRm (userString path) (userString REFMON_DEFAULT_PASSWORD))

/-- The module in the state `REC-ON`. -/
def bootedRecOn (fs : Vfs δ) : Kernel :=
  step (rootSetState fs REFMON_STATE_STRING_RECON) (booted fs)

end Sample

end Refmon
