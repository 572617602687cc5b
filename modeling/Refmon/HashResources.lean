import Refmon.DeferredLogSpecs
import Refmon.Library.Ledger
import Mathlib.Logic.Function.Basic

/-!
# What the hash functions hold

`hashgen_str` and `hashgen_filecont` with the variables that own something: two buffers, the
transform, its descriptor, the open file. A ledger notes what the functions obtain and what they
give back. A release of a variable that no statement has assigned ends the run, as `wildFree` does
in the functions without a ledger.
-/

namespace Refmon

open Wp Ledger

/-- The variables of the two functions that own something. -/
inductive Owner
  | out
  | buft
  | shash
  | desc
  | file
deriving DecidableEq

/-- What such a variable holds. A pointer that has been released stays what it was. -/
inductive Pointer
  | unassigned
  | null
  | error
  | valid
deriving DecidableEq

/-- A call of one of the functions: its variables, its ledger, and whether one of its steps has
failed. -/
structure Frame where
  pointer : Owner → Pointer
  ledger : List (Entry Owner)
  failed : Bool

/-- No variable is assigned when a call begins. -/
def Frame.fresh : Frame := ⟨fun _ => .unassigned, [], false⟩

def Frame.assign (owner : Owner) (pointer : Pointer) (frame : Frame) : Frame :=
  { frame with pointer := Function.update frame.pointer owner pointer }

def Frame.enter (entry : Entry Owner) (frame : Frame) : Frame :=
  { frame with ledger := frame.ledger ++ [entry] }

def Frame.fail (frame : Frame) : Frame := { frame with failed := true }

/-- A variable is assigned what has been obtained. -/
def Frame.got (owner : Owner) (frame : Frame) : Frame :=
  (frame.assign owner .valid).enter (.took owner)

section

variable (frame : Frame) (owner other : Owner) (pointer : Pointer) (entry : Entry Owner)

@[simp] theorem Frame.assign_pointer : (frame.assign owner pointer).pointer other =
    if other = owner then pointer else frame.pointer other := Function.update_apply ..

@[simp] theorem Frame.assign_ledger : (frame.assign owner pointer).ledger = frame.ledger := rfl

@[simp] theorem Frame.assign_failed : (frame.assign owner pointer).failed = frame.failed := rfl

@[simp] theorem Frame.enter_pointer : (frame.enter entry).pointer = frame.pointer := rfl

@[simp] theorem Frame.enter_ledger : (frame.enter entry).ledger = frame.ledger ++ [entry] := rfl

@[simp] theorem Frame.enter_failed : (frame.enter entry).failed = frame.failed := rfl

@[simp] theorem Frame.got_pointer : (frame.got owner).pointer other =
    if other = owner then .valid else frame.pointer other := Function.update_apply ..

@[simp] theorem Frame.got_ledger : (frame.got owner).ledger = frame.ledger ++ [.took owner] := rfl

@[simp] theorem Frame.got_failed : (frame.got owner).failed = frame.failed := rfl

@[simp] theorem Frame.fail_pointer : frame.fail.pointer = frame.pointer := rfl

@[simp] theorem Frame.fail_ledger : frame.fail.ledger = frame.ledger := rfl

@[simp] theorem Frame.fail_failed : frame.fail.failed = true := rfl

@[simp] theorem Frame.fresh_pointer : Frame.fresh.pointer other = .unassigned := rfl

@[simp] theorem Frame.fresh_ledger : Frame.fresh.ledger = [] := rfl

@[simp] theorem Frame.fresh_failed : Frame.fresh.failed = false := rfl

end

/-- How a call ends that does not return: by releasing what was never obtained, or inside a function
that it calls. -/
inductive Abort
  | stray
  | inside (fault : Fault)

/-- Code with a frame. -/
abbrev F := EStateM Abort (Kernel × Frame)

/-- A call of code without a frame. -/
def calling {α : Type} (m : K α) : F α := fun (k, frame) =>
  match m k with
  | .ok a t => .ok a (t, frame)
  | .error fault t => .error (.inside fault) (t, frame)

/-- A step that succeeds or fails. -/
def attempt (m : K Bool) : F Bool := fun (k, frame) =>
  match m k with
  | .ok ok t => .ok ok (t, if ok then frame else frame.fail)
  | .error fault t => .error (.inside fault) (t, frame)

/-- An assignment to a variable. -/
def assign (owner : Owner) (pointer : Pointer) : F PUnit :=
  modify fun (k, frame) => (k, frame.assign owner pointer)

/-- The result of a successful step is taken and assigned. -/
def take (owner : Owner) : F PUnit :=
  modify fun (k, frame) => (k, frame.got owner)

/-- A step that obtains something: `NULL` or an error pointer is assigned when it fails. -/
def acquireInto (owner : Owner) (m : K Bool) (missing : Pointer) : F Bool := do
  let ok ← attempt m
  if ok then take owner else assign owner missing
  pure ok

/-- `FREE`, `crypto_free_shash` or `filp_close` of a variable. -/
def release (owner : Owner) : F PUnit := fun (k, frame) =>
  match frame.pointer owner with
  | .null => .ok ⟨⟩ (k, frame)
  | .valid => .ok ⟨⟩ (k, frame.enter (.gave owner))
  | .unassigned | .error => .error .stray (k, frame)

section

variable {δ : Type} (env : Env δ)

/-- `alloc_hash_desc`, with the assignment of its result to the caller's `desc`. -/
def allocHashDesc : F Bool := do
  let shash ← acquireInto .shash (crypto env) .error
  if shash = false then do
    assign .desc .null
    pure false
  else do
    let desc ← acquireInto .desc (kmalloc env) .null
    if desc = false then do
      release .shash
      pure false
    else pure true

/-- `shash_comp`. -/
def shashComp : F Bool := do
  let init ← attempt (crypto env)
  if init = false then pure false
  else do
    let update ← attempt (crypto env)
    if update = false then pure false else attempt (crypto env)

/-- The end of `hashgen_str`, behind a failed step or not. -/
def hashgenStrTail (out : Option CString) : F (Option CString) := do
  if out.isNone then assign .out .null
  release .desc
  pure out

/-- `hashgen_str`. -/
def hashgenStrFrame (str : CString) : F (Option CString) := do
  let out ← acquireInto .out (kmalloc env) .null
  if out = false then hashgenStrTail none
  else do
    let desc ← allocHashDesc env
    if desc = false then hashgenStrTail none
    else do
      let ret ← shashComp env
      release .shash
      if ret = false then hashgenStrTail none
      else hashgenStrTail (some (hexconv (env.sha256 str.bytes)))

end

section

variable {δ : Type} (w : Worker δ)

/-- The label `tail` of `hashgen_filecont`, without a hash when `ret` is not zero. -/
def filecontTail (out : Option CString) : F (Option CString) := do
  release .desc
  release .shash
  release .buft
  if out.isNone then release .out
  pure out

/-- The label `tail_err`. -/
def filecontTailErr (out : Option CString) : F (Option CString) := do
  release .file
  filecontTail out

/-- `filp_open` of the hashed file. -/
def Worker.openFile (filepath : CString) : F (Except ℤ δ × List LogDataset) := do
  let opened ← calling (w.filpOpen filepath O_RDONLY)
  match opened.1 with
  | .error _ => do
    modify fun (k, frame) => (k, frame.fail)
    assign .file .error
  | .ok _ => take .file
  pure opened

/-- The loop over the chunks of the file. -/
def Worker.updateHashFrame : List (List UInt8) → F Bool
  | [] => pure true
  | _ :: rest => do
    let update ← attempt (crypto w.env)
    if update = false then pure false else Worker.updateHashFrame rest

/-- The part of `hashgen_filecont` behind its open. -/
def Worker.hashOpenedFrame :
    Except ℤ δ × List LogDataset → F (Option CString × List LogDataset)
  | (.error _, works) => do
    let out ← filecontTail none
    pure (out, works)
  | (.ok file, works) => do
    let (chunks, last) := w.kernelRead file
    let updated ← w.updateHashFrame chunks
    let out ←
      if updated = false then filecontTailErr none
      else if last < 0 then do
        modify fun (k, frame) => (k, frame.fail)
        filecontTailErr none
      else do
        let final ← attempt (crypto w.env)
        if final = false then filecontTailErr none
        else filecontTailErr (some (hexconv (w.env.sha256 chunks.flatten)))
    pure (out, works)

/-- `hashgen_filecont`. -/
def Worker.hashgenFilecontFrame (filepath : CString) : F (Option CString × List LogDataset) := do
  let out ← acquireInto .out (kmalloc w.env) .null
  if out = false then do
    let out ← filecontTailErr none
    pure (out, [])
  else do
    let buft ← acquireInto .buft (kmalloc w.env) .null
    if buft = false then do
      release .out
      let out ← filecontTailErr none
      pure (out, [])
    else do
      let desc ← allocHashDesc w.env
      if desc = false then do
        let out ← filecontTailErr none
        pure (out, [])
      else do
        let init ← attempt (crypto w.env)
        if init = false then do
          let out ← filecontTail none
          pure (out, [])
        else do
          let opened ← w.openFile filepath
          w.hashOpenedFrame opened

end

section Steps

variable {k : Kernel} {frame : Frame} {α : Type} {E : Abort → Kernel × Frame → Prop}

theorem wp_attempt_iff {answer : ℕ → Bool} {Q : Bool → Kernel × Frame → Prop} :
    wp (attempt (ask answer)) Q E (k, frame) ↔
      Q (answer k.aux.clock) (k.tick, if answer k.aux.clock then frame else frame.fail) := Iff.rfl

theorem wp_acquireInto_iff {owner : Owner} {answer : ℕ → Bool} {missing : Pointer}
    {Q : Bool → Kernel × Frame → Prop} :
    wp (acquireInto owner (ask answer) missing) Q E (k, frame) ↔
      if answer k.aux.clock then Q true (k.tick, frame.got owner)
      else Q false (k.tick, frame.fail.assign owner missing) := by
  rw [acquireInto, wp_bind, wp_attempt_iff]
  cases answer k.aux.clock with
  | false => rfl
  | true => rfl

theorem wp_release_iff {owner : Owner} {Q : PUnit → Kernel × Frame → Prop} :
    wp (release owner) Q E (k, frame) ↔
      match frame.pointer owner with
      | .null => Q ⟨⟩ (k, frame)
      | .valid => Q ⟨⟩ (k, frame.enter (.gave owner))
      | .unassigned | .error => E .stray (k, frame) := by
  unfold wp release
  dsimp only
  cases frame.pointer owner <;> simp only

theorem wp_assign_iff {owner : Owner} {pointer : Pointer} {Q : PUnit → Kernel × Frame → Prop} :
    wp (assign owner pointer) Q E (k, frame) ↔ Q ⟨⟩ (k, frame.assign owner pointer) := Iff.rfl

theorem wp_take_iff {owner : Owner} {Q : PUnit → Kernel × Frame → Prop} :
    wp (take owner) Q E (k, frame) ↔ Q ⟨⟩ (k, frame.got owner) := Iff.rfl

/-- A called function leaves the frame alone. -/
theorem wp_calling_iff {m : K α} {Q : α → Kernel × Frame → Prop} :
    wp (calling m) Q E (k, frame) ↔
      wp m (fun a t => Q a (t, frame)) (fun fault t => E (.inside fault) (t, frame)) k := by
  unfold wp calling
  dsimp only
  cases m k <;> rfl

end Steps

/-- How a run ends for code without frames. -/
def erase {α : Type} : EStateM.Result Abort (Kernel × Frame) α → EStateM.Result Fault Kernel α
  | .ok a s => .ok a s.1
  | .error .stray s => .error .wildFree s.1
  | .error (.inside fault) s => .error fault s.1

/-- A run with a frame mirrors one without where both end alike. -/
theorem erase_eq_of_wp {α : Type} {m : F α} {s : Kernel × Frame} {r : EStateM.Result Fault Kernel α}
    (h : wp m (fun a t => r = erase (.ok a t)) (fun abort t => r = erase (.error abort t)) s) :
    erase (m s) = r := by
  unfold wp at h
  cases hm : m s with
  | ok a t =>
    rw [hm] at h
    exact h.symm
  | error abort t =>
    rw [hm] at h
    exact h.symm

/-- A call that returns has given back, exactly once, what it obtained, except a returned buffer,
and returns `NULL` exactly after a failed step. -/
@[mk_iff] structure Clean (out : Option CString) (frame : Frame) : Prop where
  settled : settle frame.ledger [] = some (if out.isSome then [.out] else [])
  once : frame.ledger.Nodup
  null : out = none ↔ frame.failed = true

/-- A call leaves nothing behind, unless it ends inside a function that it calls. -/
def RunsClean {α : Type} (m : F α) (out : α → Option CString) (k : Kernel) : Prop :=
  wp m (fun a s => Clean (out a) s.2) (fun abort _ => ∃ fault, abort = .inside fault) (k, Frame.fresh)

section

variable {δ : Type} {env : Env δ} {k : Kernel}

/-- No step of `hashgen_str` fails. -/
@[mk_iff] structure StrSucceeds (env : Env δ) (moment : ℕ) : Prop where
  out : env.kmalloc moment = true
  shash : env.crypto (moment + 1) = true
  desc : env.kmalloc (moment + 2) = true
  init : env.crypto (moment + 3) = true
  update : env.crypto (moment + 4) = true
  final : env.crypto (moment + 5) = true

/-- `hashgen_filecont` obtains its buffers, the transform and the descriptor. -/
@[mk_iff] structure FilecontObtains (env : Env δ) (moment : ℕ) : Prop where
  out : env.kmalloc moment = true
  buft : env.kmalloc (moment + 1) = true
  shash : env.crypto (moment + 2) = true
  desc : env.kmalloc (moment + 3) = true

variable {frame : Frame} {E : Abort → Kernel × Frame → Prop}

/-- Without a transform there is no descriptor, and without a descriptor the transform is freed. -/
theorem wp_allocHashDesc_iff {Q : Bool → Kernel × Frame → Prop} :
    wp (allocHashDesc env) Q E (k, frame) ↔
      if env.crypto k.aux.clock = false then
        Q false (k.tick, (frame.fail.assign .shash .error).assign .desc .null)
      else if env.kmalloc (k.aux.clock + 1) = false then
        Q false (k.tick.tick, ((frame.got .shash).fail.assign .desc .null).enter (.gave .shash))
      else Q true (k.tick.tick, (frame.got .shash).got .desc) := by
  rw [allocHashDesc, wp_bind, crypto, wp_acquireInto_iff]
  cases env.crypto k.aux.clock with
  | false => simp [wp_assign_iff]
  | true =>
    rw [if_pos rfl, if_neg Bool.true_eq_false.mp, if_neg Bool.true_eq_false.mp, wp_bind, kmalloc,
      wp_acquireInto_iff, Kernel.tick_clock]
    cases env.kmalloc (k.aux.clock + 1) with
    | false => simp [wp_release_iff]
    | true => simp

/-- The computation of a hash changes nothing but what has failed. -/
theorem wp_shashComp_iff {Q : Bool → Kernel × Frame → Prop} :
    wp (shashComp env) Q E (k, frame) ↔
      if env.crypto k.aux.clock = false then Q false (k.tick, frame.fail)
      else if env.crypto (k.aux.clock + 1) = false then Q false (k.tick.tick, frame.fail)
      else if env.crypto (k.aux.clock + 2) = false then Q false (k.tick.tick.tick, frame.fail)
      else Q true (k.tick.tick.tick, frame) := by
  rw [shashComp, wp_bind, crypto, wp_attempt_iff]
  cases env.crypto k.aux.clock with
  | false => simp
  | true =>
    rw [if_pos rfl, if_neg Bool.true_eq_false.mp, if_neg Bool.true_eq_false.mp, wp_bind,
      wp_attempt_iff, Kernel.tick_clock]
    cases env.crypto (k.aux.clock + 1) with
    | false => simp
    | true =>
      rw [if_pos rfl, if_neg Bool.true_eq_false.mp, if_neg Bool.true_eq_false.mp, wp_attempt_iff,
        Kernel.tick_clock, Kernel.tick_clock]
      cases env.crypto (k.aux.clock + 1 + 1) with
      | false => simp
      | true => simp

/-- The end of `hashgen_str` forgets the buffer `out` when there is no hash. -/
theorem wp_hashgenStrTail_iff {out : Option CString} {Q : Option CString → Kernel × Frame → Prop} :
    wp (hashgenStrTail out) Q E (k, frame) ↔
      wp (release .desc) (fun _ => Q out) E
        (k, if out.isNone then frame.assign .out .null else frame) := by
  cases out with
  | none => simp [hashgenStrTail, wp_assign_iff]
  | some out => simp [hashgenStrTail]

/-- `hashgen_str` does what the function of the module does, and leaves nothing behind exactly when
none of its steps fails. -/
theorem wp_hashgenStrFrame (str : CString) :
    wp (hashgenStrFrame env str)
      (fun out s => hashgenStr env str k = .ok out s.1 ∧ (Clean out s.2 ↔ StrSucceeds env k.aux.clock))
      (fun abort s => hashgenStr env str k = .error .wildFree s.1 ∧ abort = .stray ∧
        ¬ StrSucceeds env k.aux.clock) (k, Frame.fresh) := by
  generalize hrun : hashgenStr env str k = run
  rw [hashgenStr, kmalloc, ask_bind] at hrun
  rw [hashgenStrFrame, wp_bind, kmalloc, wp_acquireInto_iff, strSucceeds_iff]
  cases hout : env.kmalloc k.aux.clock with
  | false =>
    rw [hout, if_pos rfl] at hrun
    simp [wp_hashgenStrTail_iff, wp_release_iff, ← hrun, throw_run]
  | true =>
    rw [hout, if_neg Bool.true_eq_false.mp, crypto, ask_bind, Kernel.tick_clock] at hrun
    rw [if_pos rfl, if_neg Bool.true_eq_false.mp, wp_bind, wp_allocHashDesc_iff, Kernel.tick_clock]
    cases hshash : env.crypto (k.aux.clock + 1) with
    | false =>
      rw [hshash, if_pos rfl, pure_run] at hrun
      simp [wp_hashgenStrTail_iff, wp_release_iff, clean_iff, settle, ← hrun]
    | true =>
      rw [hshash, if_neg Bool.true_eq_false.mp, ask_bind, Kernel.tick_clock, Kernel.tick_clock] at hrun
      rw [if_neg Bool.true_eq_false.mp]
      cases hdesc : env.kmalloc (k.aux.clock + 2) with
      | false =>
        rw [hdesc, if_pos rfl, pure_run] at hrun
        simp [wp_hashgenStrTail_iff, wp_release_iff, clean_iff, settle, ← hrun]
      | true =>
        rw [hdesc, if_neg Bool.true_eq_false.mp, ask_bind, Kernel.tick_clock, Kernel.tick_clock,
          Kernel.tick_clock] at hrun
        rw [if_neg Bool.true_eq_false.mp, if_neg Bool.true_eq_false.mp, wp_bind, wp_shashComp_iff,
          Kernel.tick_clock, Kernel.tick_clock, Kernel.tick_clock]
        cases hinit : env.crypto (k.aux.clock + 3) with
        | false =>
          rw [hinit, if_pos rfl, pure_run] at hrun
          simp [wp_hashgenStrTail_iff, wp_release_iff, clean_iff, settle, ← hrun]
        | true =>
          rw [hinit, if_neg Bool.true_eq_false.mp, ask_bind, Kernel.tick_clock, Kernel.tick_clock,
            Kernel.tick_clock, Kernel.tick_clock] at hrun
          rw [if_neg Bool.true_eq_false.mp]
          cases hupdate : env.crypto (k.aux.clock + 4) with
          | false =>
            rw [hupdate, if_pos rfl, pure_run] at hrun
            simp [wp_hashgenStrTail_iff, wp_release_iff, clean_iff, settle, ← hrun]
          | true =>
            rw [hupdate, if_neg Bool.true_eq_false.mp, ask_bind, Kernel.tick_clock, Kernel.tick_clock,
              Kernel.tick_clock, Kernel.tick_clock, Kernel.tick_clock] at hrun
            rw [if_neg Bool.true_eq_false.mp]
            cases hfinal : env.crypto (k.aux.clock + 5) with
            | false =>
              rw [hfinal, if_pos rfl, pure_run] at hrun
              simp [wp_hashgenStrTail_iff, wp_release_iff, clean_iff, settle, ← hrun]
            | true =>
              rw [hfinal, if_neg Bool.true_eq_false.mp, pure_run] at hrun
              simp [wp_hashgenStrTail_iff, wp_release_iff, clean_iff, settle, ← hrun]

theorem runsClean_hashgenStr_iff (str : CString) :
    RunsClean (hashgenStrFrame env str) id k ↔ StrSucceeds env k.aux.clock := by
  have hboth := @wp_hashgenStrFrame _ env k str
  unfold RunsClean
  unfold wp at hboth ⊢
  cases hrun : hashgenStrFrame env str (k, Frame.fresh) with
  | ok out s =>
    rw [hrun] at hboth
    exact hboth.2
  | error abort s =>
    rw [hrun] at hboth
    obtain ⟨-, rfl, hfails⟩ := hboth
    simp [hfails]

/-- Without its frame, `hashgen_str` is the function of the module. -/
theorem erase_hashgenStr (str : CString) :
    erase (hashgenStrFrame env str (k, Frame.fresh)) = hashgenStr env str k := by
  apply erase_eq_of_wp
  apply wp_mono (wp_hashgenStrFrame str)
  · intro out s h
    exact h.1
  · rintro abort s ⟨hrun, rfl, -⟩
    exact hrun

variable {w : Worker δ}

/-- What `hashgen_filecont` holds when it begins to hash. -/
def Frame.prepared : Frame := (((Frame.fresh.got .out).got .buft).got .shash).got .desc

/-- The label `tail` gives back what was held when the hashing began. -/
theorem wp_filecontTail_iff {out : Option CString} {Q : Option CString → Kernel × Frame → Prop}
    (hout : frame.pointer .out = .valid) (hbuft : frame.pointer .buft = .valid)
    (hshash : frame.pointer .shash = .valid) (hdesc : frame.pointer .desc = .valid) :
    wp (filecontTail out) Q E (k, frame) ↔
      Q out (k, { frame with ledger := frame.ledger ++
        ([.gave .desc, .gave .shash, .gave .buft] ++ if out.isNone then [.gave .out] else []) }) := by
  cases out with
  | none => simp [filecontTail, wp_release_iff, hout, hbuft, hshash, hdesc, Frame.enter]
  | some out => simp [filecontTail, wp_release_iff, hbuft, hshash, hdesc, Frame.enter]

/-- The hashing of the chunks changes nothing but what has failed. -/
theorem Worker.wp_updateHashFrame_iff {chunks : List (List UInt8)} {Q : Bool → Kernel × Frame → Prop} :
    wp (w.updateHashFrame chunks) Q E (k, frame) ↔
      wp (w.updateHash chunks) (fun updated t => Q updated (t, if updated then frame else frame.fail))
        (fun fault t => E (.inside fault) (t, frame)) k := by
  induction chunks generalizing k with
  | nil => rfl
  | cons chunk chunks ih =>
    rw [Worker.updateHashFrame, Worker.updateHash, wp_bind, wp_bind, crypto, wp_attempt_iff, wp_ask_iff]
    cases w.env.crypto k.aux.clock with
    | false => rfl
    | true => exact ih

/-- The hashing of the chunks always returns. -/
theorem Worker.wp_updateHash_any {chunks : List (List UInt8)} {Q : Bool → Kernel → Prop}
    {E : Fault → Kernel → Prop} (h : ∀ updated t, Q updated t) : wp (w.updateHash chunks) Q E k := by
  induction chunks generalizing k with
  | nil => exact h true k
  | cons chunk chunks ih =>
    rw [Worker.updateHash, wp_bind, crypto, wp_ask_iff]
    cases w.env.crypto k.aux.clock with
    | false => exact h false k.tick
    | true => exact ih

/-- The label `tail_err` gives back everything once the file is open. -/
theorem wp_filecontTailErr {out : Option CString}
    (hpointer : frame.pointer = (Frame.prepared.got .file).pointer)
    (hledger : frame.ledger = (Frame.prepared.got .file).ledger)
    (hfailed : out = none ↔ frame.failed = true) {Q : Option CString → Kernel × Frame → Prop}
    (hQ : ∀ clean, Clean out clean → Q out (k, clean)) : wp (filecontTailErr out) Q E (k, frame) := by
  have hvalid (owner : Owner) : (frame.enter (.gave .file)).pointer owner = .valid := by
    rw [Frame.enter_pointer, hpointer]
    cases owner <;> rfl
  have hfile : frame.pointer .file = .valid := hvalid .file
  rw [filecontTailErr, wp_bind, wp_release_iff, hfile]
  dsimp only
  rw [wp_filecontTail_iff (hvalid .out) (hvalid .buft) (hvalid .shash) (hvalid .desc)]
  refine hQ _ ⟨?_, ?_, hfailed⟩
  · cases out with
    | none => simp [hledger, Frame.prepared, settle]
    | some out => simp [hledger, Frame.prepared, settle]
  · cases out with
    | none => simp [hledger, Frame.prepared]
    | some out => simp [hledger, Frame.prepared]

/-- Behind its open, `hashgen_filecont` leaves nothing behind. -/
theorem Worker.wp_hashOpenedFrame {opened : Except ℤ δ × List LogDataset}
    (hopened : frame = match opened.1 with
      | .error _ => Frame.prepared.fail.assign .file .error
      | .ok _ => Frame.prepared.got .file) :
    wp (w.hashOpenedFrame opened) (fun a s => w.hashOpened opened k = .ok a s.1 ∧ Clean a.1 s.2)
      (fun _ _ => False) (k, frame) := by
  obtain ⟨opened, works⟩ := opened
  cases opened with
  | error e =>
    rw [hopened, Worker.hashOpenedFrame, wp_bind, wp_filecontTail_iff rfl rfl rfl rfl]
    simp [Worker.hashOpened, pure_run, Frame.prepared, clean_iff, settle]
  | ok file =>
    have hframe : frame = Frame.prepared.got .file := hopened
    generalize hrun : w.hashOpened (.ok file, works) k = run
    -- every later failure ends at `tail_err`
    have hfail {t : Kernel} (h : .ok (none, works) t = run) :
        wp (filecontTailErr none) (fun out s => run = .ok (out, works) s.1 ∧ Clean out s.2)
          (fun _ _ => False) (t, frame.fail) := by
      apply wp_filecontTailErr
      · rw [hframe, Frame.fail_pointer]
      · rw [hframe, Frame.fail_ledger]
      · simp
      · exact fun _ hclean => ⟨h.symm, hclean⟩
    rw [Worker.hashOpened] at hrun
    rw [Worker.hashOpenedFrame]
    dsimp only at hrun ⊢
    rw [wp_bind, Worker.wp_updateHashFrame_iff]
    apply wp_of_run
    · intro updated t hupdate
      rw [bind_of_ok hupdate] at hrun
      cases updated with
      | false =>
        rw [if_neg Bool.false_ne_true, if_pos rfl, wp_bind]
        exact hfail hrun
      | true =>
        rw [if_neg Bool.true_eq_false.mp] at hrun
        rw [if_pos rfl, if_neg Bool.true_eq_false.mp]
        split
        · rename_i hlast
          rw [if_pos hlast, pure_run] at hrun
          rw [wp_bind, wp_modify, wp_bind]
          exact hfail hrun
        · rename_i hlast
          rw [if_neg hlast, crypto, ask_bind] at hrun
          rw [wp_bind, crypto, wp_attempt_iff]
          cases hfinal : w.env.crypto t.aux.clock with
          | false =>
            rw [hfinal, if_pos rfl, pure_run] at hrun
            rw [if_neg Bool.false_ne_true, if_pos rfl, wp_bind]
            exact hfail hrun
          | true =>
            rw [hfinal, if_neg Bool.true_eq_false.mp, pure_run] at hrun
            rw [if_pos rfl, if_neg Bool.true_eq_false.mp, wp_bind]
            apply wp_filecontTailErr
            · rw [hframe]
            · rw [hframe]
            · simp [hframe, Frame.prepared]
            · exact fun _ hclean => ⟨hrun.symm, hclean⟩
    · intro fault t hupdate
      have hreturns := wp_error (Worker.wp_updateHash_any (E := fun _ _ => False) fun _ _ => trivial) hupdate
      exact hreturns

/-- Once its resources are obtained, `hashgen_filecont` leaves nothing behind, unless it ends inside
its open. -/
theorem Worker.wp_filecont_prepared (filepath : CString)
    {run : EStateM.Result Fault Kernel (Option CString × List LogDataset)}
    (hrun : (do
      let init ← crypto w.env
      if init = false then pure (none, [])
      else do
        let opened ← w.filpOpen filepath O_RDONLY
        w.hashOpened opened) k = run) :
    wp (do
        let init ← attempt (crypto w.env)
        if init = false then do
          let out ← filecontTail none
          pure (out, [])
        else do
          let opened ← w.openFile filepath
          w.hashOpenedFrame opened)
      (fun a s => run = .ok a s.1 ∧ Clean a.1 s.2)
      (fun abort s => ∃ fault, run = .error fault s.1 ∧ abort = .inside fault) (k, Frame.prepared) := by
  rw [crypto, ask_bind] at hrun
  rw [wp_bind, crypto, wp_attempt_iff]
  cases hinit : w.env.crypto k.aux.clock with
  | false =>
    rw [hinit, if_pos rfl, pure_run] at hrun
    rw [if_neg Bool.false_ne_true, if_pos rfl, wp_bind, wp_filecontTail_iff rfl rfl rfl rfl]
    simp [Frame.prepared, clean_iff, settle, hrun]
  | true =>
    rw [hinit, if_neg Bool.true_eq_false.mp] at hrun
    rw [if_pos rfl, if_neg Bool.true_eq_false.mp, wp_bind, Worker.openFile, wp_bind, wp_calling_iff,
      ← hrun]
    apply wp_of_run
    · rintro ⟨opened, works⟩ t hopen
      rw [bind_of_ok hopen]
      cases opened with
      | error e =>
        simp only [wp_bind, wp_modify, wp_assign_iff, wp_pure]
        exact wp_of_returns (Worker.wp_hashOpenedFrame rfl)
      | ok file =>
        simp only [wp_bind, wp_take_iff, wp_pure]
        exact wp_of_returns (Worker.wp_hashOpenedFrame rfl)
    · intro fault t hopen
      exact ⟨fault, bind_of_error hopen _, rfl⟩

/-- `hashgen_filecont` does what the function of the module does, and leaves nothing behind exactly
when it obtains its buffers, the transform and the descriptor. -/
theorem Worker.wp_hashgenFilecontFrame (filepath : CString) :
    wp (w.hashgenFilecontFrame filepath)
      (fun a s => w.hashgenFilecont filepath k = .ok a s.1 ∧ Clean a.1 s.2 ∧
        FilecontObtains w.env k.aux.clock)
      (fun abort s => w.hashgenFilecont filepath k = erase (.error abort s) ∧
        (FilecontObtains w.env k.aux.clock ↔ ∃ fault, abort = .inside fault)) (k, Frame.fresh) := by
  generalize hrun : w.hashgenFilecont filepath k = run
  rw [Worker.hashgenFilecont, kmalloc, ask_bind] at hrun
  rw [Worker.hashgenFilecontFrame, wp_bind, kmalloc, wp_acquireInto_iff, filecontObtains_iff]
  cases hout : w.env.kmalloc k.aux.clock with
  | false =>
    rw [hout, if_pos rfl, throw_run] at hrun
    simp [filecontTailErr, wp_release_iff, erase, ← hrun]
  | true =>
    rw [hout, if_neg Bool.true_eq_false.mp, ask_bind, Kernel.tick_clock] at hrun
    rw [if_pos rfl, if_neg Bool.true_eq_false.mp, wp_bind, wp_acquireInto_iff, Kernel.tick_clock]
    cases hbuft : w.env.kmalloc (k.aux.clock + 1) with
    | false =>
      rw [hbuft, if_pos rfl, throw_run] at hrun
      simp [filecontTailErr, wp_release_iff, erase, ← hrun]
    | true =>
      rw [hbuft, if_neg Bool.true_eq_false.mp, crypto, ask_bind, Kernel.tick_clock,
        Kernel.tick_clock] at hrun
      rw [if_pos rfl, if_neg Bool.true_eq_false.mp, wp_bind, wp_allocHashDesc_iff, Kernel.tick_clock,
        Kernel.tick_clock]
      cases hshash : w.env.crypto (k.aux.clock + 2) with
      | false =>
        rw [hshash, if_pos rfl, throw_run] at hrun
        simp [filecontTailErr, wp_release_iff, erase, ← hrun]
      | true =>
        rw [hshash, if_neg Bool.true_eq_false.mp, ask_bind, Kernel.tick_clock, Kernel.tick_clock,
          Kernel.tick_clock] at hrun
        rw [if_neg Bool.true_eq_false.mp]
        cases hdesc : w.env.kmalloc (k.aux.clock + 3) with
        | false =>
          rw [hdesc, if_pos rfl, throw_run] at hrun
          simp [filecontTailErr, wp_release_iff, erase, ← hrun]
        | true =>
          rw [hdesc, if_neg Bool.true_eq_false.mp] at hrun
          rw [if_neg Bool.true_eq_false.mp, if_neg Bool.true_eq_false.mp]
          apply wp_mono (Worker.wp_filecont_prepared filepath hrun)
          · rintro a s ⟨hok, hclean⟩
            exact ⟨hok, hclean, rfl, rfl, rfl, rfl⟩
          · rintro abort s ⟨fault, herror, rfl⟩
            exact ⟨herror, fun _ => ⟨fault, rfl⟩, fun _ => ⟨rfl, rfl, rfl, rfl⟩⟩

theorem runsClean_hashgenFilecont_iff (filepath : CString) :
    RunsClean (w.hashgenFilecontFrame filepath) Prod.fst k ↔ FilecontObtains w.env k.aux.clock := by
  have hboth := @Worker.wp_hashgenFilecontFrame _ k w filepath
  unfold RunsClean
  unfold wp at hboth ⊢
  cases hrun : w.hashgenFilecontFrame filepath (k, Frame.fresh) with
  | ok out s =>
    rw [hrun] at hboth
    obtain ⟨-, hclean, hobtains⟩ := hboth
    exact iff_of_true hclean hobtains
  | error abort s =>
    rw [hrun] at hboth
    exact hboth.2.symm

/-- Without its frame, `hashgen_filecont` is the function of the module. -/
theorem erase_hashgenFilecont (filepath : CString) :
    erase (w.hashgenFilecontFrame filepath (k, Frame.fresh)) = w.hashgenFilecont filepath k := by
  apply erase_eq_of_wp
  apply wp_mono (Worker.wp_hashgenFilecontFrame filepath)
  · intro out s h
    exact h.1
  · intro abort s h
    exact h.1

/-- Whatever was obtained was given back, once, except the buffer that is returned. -/
theorem Clean.released {out : Option CString} (h : Clean out frame) (owner : Owner) :
    frame.ledger.count (.took owner) ≤ 1 ∧
      frame.ledger.count (.took owner) =
        frame.ledger.count (.gave owner) + if out.isSome ∧ owner = .out then 1 else 0 := by
  refine ⟨List.nodup_iff_count_le_one.mp h.once _, ?_⟩
  have hcount := count_of_settle h.settled owner
  rw [List.count_nil, zero_add] at hcount
  rw [hcount, add_comm]
  cases out with
  | none => simp
  | some out => cases owner <;> simp

/-- Every evaluation of `hashgen_str` in a comparison of passwords gave a string. -/
def NeverNull (env : Env δ) (str : CString) (k u : Kernel) : Prop :=
  ∃ str1 t measured v, hashgenStr env str k = .ok (some str1) t ∧
    hashgenStr env str t = .ok (some measured) v ∧
    (v = u ∨ ∃ again, hashgenStr env str v = .ok (some again) u)

/-- A comparison that returns was never given `NULL`. -/
theorem neverNull_of_matchPassword {str : CString} {same : Bool} {u : Kernel}
    (h : matchPassword env str k = .ok same u) : NeverNull env str k u := by
  have hgets : gets (fun core => core.theInstance.password) k = .ok k.core.theInstance.password k := rfl
  rw [matchPassword, bind_of_ok hgets] at h
  cases hstr1 : hashgenStr env str k with
  | error fault t =>
    rw [bind_of_error hstr1] at h
    cases h
  | ok str1 t =>
    rw [bind_of_ok hstr1] at h
    cases hmeasured : hashgenStr env str t with
    | error fault v =>
      rw [bind_of_error hmeasured] at h
      cases h
    | ok measured v =>
      rw [bind_of_ok hmeasured] at h
      cases str1 with
      | none => cases h
      | some str1 =>
        cases measured with
        | none => cases h
        | some measured =>
          cases hpassword : k.core.theInstance.password with
          | none =>
            rw [hpassword] at h
            cases h
          | some password =>
            rw [hpassword] at h
            dsimp only at h
            refine ⟨str1, t, measured, v, hstr1, hmeasured, ?_⟩
            split at h
            · cases hagain : hashgenStr env str v with
              | error fault x =>
                rw [bind_of_error hagain] at h
                cases h
              | ok again x =>
                rw [bind_of_ok hagain] at h
                cases again with
                | none => cases h
                | some again =>
                  cases h
                  exact Or.inr ⟨again, rfl⟩
            · cases h
              exact Or.inl rfl

/-- Safety checks that return after copying a password were never given `NULL`. -/
theorem neverNull_of_safetyChecks {arg : UserPtr} {buffer : List UInt8} {str : CString} {m u : Kernel}
    {ret : ℤ} (hroot : env.euid = GLOBAL_ROOT_UID) (hreconf : isReconf k.core.theInstance = true)
    (hcopy : sanitizeUserInputAlloc env arg k = .ok (some buffer) m) (hstr : cstring buffer = some str)
    (h : safetyChecks env reconfChecks arg k = .ok ret u) : NeverNull env str m u := by
  have hgets : gets (fun core => isReconf core.theInstance) k = .ok true k := by
    rw [← hreconf]
    rfl
  have hread : readBuffer buffer m = .ok str m := by
    rw [readBuffer, hstr]
    rfl
  rw [safetyChecks_reconf, if_neg (not_not.mpr hroot), bind_of_ok hgets, if_neg Bool.true_eq_false.mp,
    passwordCheck, bind_of_ok hcopy] at h
  dsimp only at h
  rw [bind_of_ok hread] at h
  cases hmatch : matchPassword env str m with
  | error fault v =>
    rw [bind_of_error hmatch] at h
    cases h
  | ok same v =>
    rw [bind_of_ok hmatch] at h
    have hsame : v = u := by
      split at h <;> cases h <;> rfl
    rw [← hsame]
    exact neverNull_of_matchPassword hmatch

/-- `hashgen_str` leaves nothing behind exactly when none of its steps fails, and `hashgen_filecont`
exactly when its buffers, the transform and the descriptor are obtained, whatever fails later; safety
checks that are given `NULL` for a hash do not return. -/
theorem hashing_clean_iff (env : Env δ) (w : Worker δ) (str filepath : CString) (k : Kernel) :
    (RunsClean (hashgenStrFrame env str) id k ↔ StrSucceeds env k.aux.clock) ∧
      (RunsClean (w.hashgenFilecontFrame filepath) Prod.fst k ↔ FilecontObtains w.env k.aux.clock) ∧
      ∀ (arg : UserPtr) (buffer : List UInt8) (m u : Kernel) (ret : ℤ),
        env.euid = GLOBAL_ROOT_UID → isReconf k.core.theInstance = true →
        sanitizeUserInputAlloc env arg k = .ok (some buffer) m → cstring buffer = some str →
        safetyChecks env reconfChecks arg k = .ok ret u → NeverNull env str m u := by
  refine ⟨runsClean_hashgenStr_iff str, runsClean_hashgenFilecont_iff filepath, ?_⟩
  intro arg buffer m u ret hroot hreconf hcopy hstr hchecks
  exact neverNull_of_safetyChecks hroot hreconf hcopy hstr hchecks

/-- Root in a kernel that has no transforms. -/
def withoutTransforms : Env Unit := { rootOnly.calm ciaoSha256 with crypto := fun _ => false }

/-- A worker in such a kernel. -/
def idleWorker : Worker Unit := ⟨withoutTransforms, none, fun _ _ => 0, fun _ => ([], 0), fun _ _ => true, 0⟩

/-- Without transforms, `hashgen_str` returns `NULL` and keeps its buffer, `hashgen_filecont` closes
a file that it never opened, and the password check hands `NULL` to `strlen`. -/
theorem not_runsClean :
    returned (hashgenStr withoutTransforms REFMON_DEFAULT_PASSWORD (bootedRecOn rootOnly)) = some none ∧
      ¬ RunsClean (hashgenStrFrame withoutTransforms REFMON_DEFAULT_PASSWORD) id (bootedRecOn rootOnly) ∧
      ¬ RunsClean (idleWorker.hashgenFilecontFrame (lit "/")) Prod.fst (bootedRecOn rootOnly) ∧
      ∃ t, safetyChecks withoutTransforms reconfChecks (userString REFMON_DEFAULT_PASSWORD)
        (bootedRecOn rootOnly) = .error .nullDeref t := by
  refine ⟨by decide +kernel, ?_, ?_, ?_⟩
  · rw [runsClean_hashgenStr_iff]
    exact fun h => Bool.false_ne_true h.shash
  · rw [runsClean_hashgenFilecont_iff]
    exact fun h => Bool.false_ne_true h.shash
  · have hfault : faultOf (safetyChecks withoutTransforms reconfChecks
        (userString REFMON_DEFAULT_PASSWORD) (bootedRecOn rootOnly)) = some .nullDeref := by
      decide +kernel
    exact exists_error_of_faultOf hfault

end

end Refmon
