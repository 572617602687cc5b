import Refmon.Accesses
import Refmon.Authorisation
import Refmon.LogFeedback

/-!
# What happens to an access

An access is decided at its entry, by the registry and the probes of that moment; calls, works and
other accesses that come before it returns do not matter. The handlers and the works leave the module
as it is, and so do the calls of those who have no right to make them: protection lasts until
somebody who may end it does, and before the state is set to an on-state the module is not noticed.
-/

namespace Refmon

open Runs Wp

variable {δ κ : Type}

section Frame

variable {env : Env δ}

theorem moves_searchEntry (idPath : Option CString) (idInoNo : UInt64) (criteria : ℕ) :
    Moves Same (searchEntry env idPath idInoNo criteria) := (returns_searchEntry env _ _ _).moves

theorem moves_verdict (id : PathIdentifier) : Moves Same (verdict env id) := by
  have heligible : Moves Same (isEligible env id) :=
    Moves.bind Same.trans (moves_searchEntry _ _ _) fun _ => Moves.pure Same.refl _
  refine Moves.bind Same.trans heligible fun eligible => ?_
  exact Moves.ite (Moves.pure Same.refl _) (Moves.pure Same.refl _)

theorem moves_krpHookOpen (dentry : δ) (fFlags : UInt32) : Moves Same (krpHookOpen env dentry fFlags) := by
  refine Moves.bind Same.trans (moves_identify dentry) fun id => ?_
  cases id with
  | none => exact Moves.pure Same.refl _
  | some id => exact Moves.ite (moves_verdict id) (Moves.pure Same.refl _)

theorem moves_krpHookRm (dentry : δ) : Moves Same (krpHookRm env dentry) := by
  refine Moves.bind Same.trans (moves_identify dentry) fun id => ?_
  cases id with
  | none => exact Moves.pure Same.refl _
  | some id => exact Moves.ite (Moves.pure Same.refl _) (moves_verdict id)

theorem moves_krpHookMkdir (dentry : δ) : Moves Same (krpHookMkdir env dentry) := by
  refine Moves.bind Same.trans (moves_absolutePath dentry _) fun path => ?_
  cases path with
  | none => exact Moves.pure Same.refl _
  | some path => exact moves_verdict _

/-- The entry handlers change nothing that lasts. -/
theorem moves_entryHandler (target : Target δ) : Moves Same (target.entryHandler env) := by
  cases target with
  | vfsOpen dentry fFlags => exact moves_krpHookOpen dentry fFlags
  | mayDelete dentry => exact moves_krpHookRm dentry
  | securityPathMkdir dentry => exact moves_krpHookMkdir dentry
  | securityPathRmdir dentry => exact moves_krpHookMkdir dentry

theorem moves_ask_else {α : Type} (answer : ℕ → Bool) {m n : K α} (hm : Moves Same m) (hn : Moves Same n) :
    Moves Same (ask answer >>= fun ok => if ok = false then m else n) :=
  Moves.bind Same.trans (returns_ask answer).moves fun _ => Moves.ite hm hn

/-- Nor does the return handler. -/
theorem moves_krpHookTail (current : Task δ) (regs : PtRegs δ) :
    Moves Same (krpHookTail env current regs).2 := by
  have hextract : Moves Same (extractPathFromDentry env current.exeFile) := by
    apply moves_ask_else _ (Moves.pure Same.refl _)
    refine Moves.bind Same.trans (returns_ask _).moves fun path => ?_
    cases path with
    | error e => exact Moves.throw Same.refl _
    | ok path => exact Moves.pure Same.refl _
  have hlog : Moves Same (logHandler env current) := by
    apply moves_ask_else _ (Moves.pure Same.refl _)
    refine Moves.bind Same.trans hextract fun path => ?_
    cases path with
    | none => exact Moves.pure Same.refl _
    | some path =>
      apply moves_ask_else _ (Moves.pure Same.refl _)
      exact moves_ask_else _ (Moves.pure Same.refl _) (Moves.pure Same.refl _)
  have hrest (out : ℤ × Option LogDataset) :
      Moves Same (if out.1 < 0 then pure (out.1, none) else pure (0, out.2) : K (ℤ × Option LogDataset)) :=
    Moves.ite (Moves.pure Same.refl _) (Moves.pure Same.refl _)
  have hbody := Moves.bind Same.trans hlog hrest
  unfold krpHookTail
  dsimp only [regsSetReturnValue]
  rw [if_neg (not_not.mpr rfl)]
  exact hbody

variable {w : Worker δ}

theorem Worker.moves_filpOpen (filename : CString) (flags : UInt32) : Moves Same (w.filpOpen filename flags) := by
  refine Moves.bind Same.trans (returns_ask _).moves fun found => ?_
  cases found with
  | error e => exact Moves.pure Same.refl _
  | ok dentry =>
    have hverdict : Moves Same (w.probeVerdict dentry flags) :=
      Moves.bind Same.trans (returns_gets _).moves fun _ =>
        Moves.ite (moves_krpHookOpen dentry flags) (Moves.pure Same.refl _)
    have htail (regs : PtRegs δ) : Moves Same (w.hookTail regs).2 := by
      unfold Worker.hookTail
      cases w.current with
      | some current => exact moves_krpHookTail current regs
      | none => exact moves_ask_else _ (Moves.pure Same.refl _) (Moves.throw Same.refl _)
    refine Moves.bind Same.trans hverdict fun verdict => Moves.ite ?_ (Moves.pure Same.refl _)
    exact Moves.bind Same.trans (htail _) fun _ => Moves.pure Same.refl _

theorem Worker.moves_updateHash (chunks : List (List UInt8)) : Moves Same (w.updateHash chunks) := by
  induction chunks with
  | nil => exact Moves.pure Same.refl _
  | cons chunk rest ih => exact moves_ask_else _ (Moves.pure Same.refl _) ih

theorem Worker.moves_hashOpened (opened : Except ℤ δ × List LogDataset) :
    Moves Same (w.hashOpened opened) := by
  obtain ⟨opened, works⟩ := opened
  cases opened with
  | error e => exact Moves.pure Same.refl _
  | ok file =>
    refine Moves.bind Same.trans (w.moves_updateHash _) fun _ => Moves.ite (Moves.pure Same.refl _) ?_
    apply Moves.ite (Moves.pure Same.refl _)
    exact moves_ask_else _ (Moves.pure Same.refl _) (Moves.pure Same.refl _)

theorem Worker.moves_hashgenFilecont (filepath : CString) : Moves Same (w.hashgenFilecont filepath) := by
  have hwild : Moves Same (throw .wildFree : K (Option CString × List LogDataset)) :=
    Moves.throw Same.refl _
  apply moves_ask_else _ hwild
  apply moves_ask_else _ hwild
  apply moves_ask_else _ hwild
  apply moves_ask_else _ hwild
  apply moves_ask_else _ (Moves.pure Same.refl _)
  exact Moves.bind Same.trans (w.moves_filpOpen _ _) fun opened => w.moves_hashOpened opened

/-- Nor does a work. -/
theorem Worker.moves_defer (dataset : LogDataset) : Moves Same (w.defer dataset) := by
  refine Moves.bind Same.trans (w.moves_hashgenFilecont _) fun out => ?_
  obtain ⟨hash, works⟩ := out
  cases hash with
  | none => exact Moves.pure Same.refl _
  | some hash =>
    refine Moves.bind Same.trans (w.moves_filpOpen _ _) fun opened => ?_
    obtain ⟨opened, more⟩ := opened
    cases opened with
    | error e => exact Moves.pure Same.refl _
    | ok file => exact Moves.pure Same.refl _

end Frame

variable [DecidableEq κ] {accesses : κ → Access δ} {s : Mediation κ} {access : κ}

@[simp] theorem Mediation.move_phase_self (s : Mediation κ) (access : κ) (phase : AccessPhase) :
    (s.move access phase).phase access = phase := Function.update_self _ _ _

@[simp] theorem Mediation.move_phase_of_ne {other : κ} (h : access ≠ other) (s : Mediation κ)
    (phase : AccessPhase) : (s.move other phase).phase access = s.phase access :=
  Function.update_of_ne h _ _

@[simp] theorem Mediation.move_kernel (s : Mediation κ) (access : κ) (phase : AccessPhase) :
    (s.move access phase).kernel = s.kernel := rfl

/-- What handlers and works leave of the module. -/
theorem core_of_run {α : Type} {m : K α} {k t : Kernel} {a : α} (hmoves : Moves Same m)
    (h : m k = .ok a t) : t.core = k.core := (hmoves.ok h).core

theorem core_of_fault {α : Type} {m : K α} {k t : Kernel} {fault : Fault} (hmoves : Moves Same m)
    (h : m k = .error fault t) : t.core = k.core := (hmoves.error h).core

theorem Mediation.enter_core (s : Mediation κ) (access : κ) :
    (s.enter accesses access).kernel.core = s.kernel.core := by
  have hmoves : Moves Same ((accesses access).target.entryHandler (accesses access).entryEnv) :=
    moves_entryHandler _
  unfold Mediation.enter
  split
  · split
    · rename_i ret t hrun
      split
      · exact core_of_run hmoves hrun
      · exact core_of_run hmoves hrun
    · rename_i fault t hrun
      exact core_of_fault hmoves hrun
  · rfl

theorem Mediation.tail_core (s : Mediation κ) (access : κ) :
    (s.tail accesses access).kernel.core = s.kernel.core := by
  have hmoves : Moves Same (krpHookTail (accesses access).returnEnv (accesses access).current
      (accesses access).regs).2 := moves_krpHookTail _ _
  unfold Mediation.tail
  split
  · rfl
  · dsimp only
    split
    · rename_i ret work t hrun
      exact core_of_run hmoves hrun
    · rename_i fault t hrun
      exact core_of_fault hmoves hrun

omit [DecidableEq κ] in
theorem Mediation.runWork_core (s : Mediation κ) (place : ℕ) (w : Worker δ) :
    (s.runWork place w).kernel.core = s.kernel.core := by
  unfold Mediation.runWork
  split
  · rfl
  · split
    · rfl
    · rename_i dataset _
      dsimp only
      split
      · rfl
      · rename_i more world hrun
        unfold Worker.runWork at hrun
        split at hrun
        · cases hrun
        · rename_i deferred t hdefer
          have ht : t.core = s.kernel.core := core_of_run (w.moves_defer dataset) hdefer
          cases hrun
          dsimp only
          split
          · exact ht
          · unfold Worker.kernelWrite
            split
            · exact ht
            · exact ht

/-- Only calls change what lasts of the module. -/
theorem Mediation.step_core (s : Mediation κ) {o : Occurrence κ δ} (h : ∀ e, o ≠ .call e) :
    (Mediation.step accesses o s).kernel.core = s.kernel.core := by
  cases o with
  | call e => exact absurd rfl (h e)
  | enter access =>
    rw [Mediation.step]
    split
    · exact s.enter_core access
    · rfl
  | leave access =>
    rw [Mediation.step]
    split
    · exact s.tail_core access
    · rfl
    · rfl
  | work place w => exact s.runWork_core place w

section Phases

/-- The phases of an access that is denied. -/
def AccessPhase.Denied (phase : AccessPhase) : Prop :=
  phase = .armed ∨ phase = .crashed ∨ phase = .returned (-EACCES)

/-- The phases of an access that goes ahead, whose function returns this value. -/
def AccessPhase.GoesAhead (ax : ℤ) (phase : AccessPhase) : Prop :=
  phase = .unprobed ∨ phase = .crashed ∨ phase = .returned ax

variable {other : κ}

theorem Mediation.enter_phase_of_ne (h : access ≠ other) (s : Mediation κ) :
    (s.enter accesses other).phase access = s.phase access := by
  unfold Mediation.enter
  split
  · split
    · split
      · exact move_phase_of_ne h _ _
      · exact move_phase_of_ne h _ _
    · exact move_phase_of_ne h _ _
  · exact move_phase_of_ne h _ _

theorem Mediation.tail_phase_of_ne (h : access ≠ other) (s : Mediation κ) :
    (s.tail accesses other).phase access = s.phase access := by
  unfold Mediation.tail
  split
  · rfl
  · dsimp only
    split
    · exact move_phase_of_ne h _ _
    · exact move_phase_of_ne h _ _

omit [DecidableEq κ] in
theorem Mediation.runWork_phase (s : Mediation κ) (place : ℕ) (w : Worker δ) :
    (s.runWork place w).phase = s.phase := by
  unfold Mediation.runWork
  split
  · rfl
  · split
    · rfl
    · dsimp only
      split
      · rfl
      · rfl

/-- What is about other accesses leaves an access where it stands. -/
theorem Mediation.step_phase_of_ne {o : Occurrence κ δ} (h : o.subject ≠ some access) (s : Mediation κ) :
    (Mediation.step accesses o s).phase access = s.phase access := by
  cases o with
  | call e => rfl
  | enter other =>
    have hne : access ≠ other := fun heq => h (congrArg some heq.symm)
    rw [Mediation.step]
    split
    · exact enter_phase_of_ne hne s
    · rfl
  | leave other =>
    have hne : access ≠ other := fun heq => h (congrArg some heq.symm)
    rw [Mediation.step]
    split
    · exact tail_phase_of_ne hne s
    · exact move_phase_of_ne hne _ _
    · rfl
  | work place w => rw [Mediation.step, runWork_phase]

/-- The return handler denies, if it gets its lock and does not crash. -/
theorem Mediation.tail_denied (h : (s.phase access).Denied) :
    ((s.tail accesses access).phase access).Denied := by
  unfold Mediation.tail
  split
  · exact h
  · dsimp only
    split
    · rw [move_phase_self, krpHookTail_ax]
      exact .inr (.inr rfl)
    · rw [move_phase_self]
      exact .inr (.inl rfl)

/-- A denied access stays denied. -/
theorem Mediation.step_denied (h : (s.phase access).Denied) (o : Occurrence κ δ) :
    ((Mediation.step accesses o s).phase access).Denied := by
  by_cases hother : o.subject = some access
  · cases o with
    | call e => cases hother
    | enter a =>
      obtain rfl : a = access := Option.some.inj hother
      rcases h with h | h | h <;> simp [Mediation.step, AccessPhase.Denied, h]
    | leave a =>
      obtain rfl : a = access := Option.some.inj hother
      rcases h with h | h | h
      · rw [Mediation.step, h]
        exact tail_denied (.inl h)
      · simp [Mediation.step, AccessPhase.Denied, h]
      · simp [Mediation.step, AccessPhase.Denied, h]
    | work place w => cases hother
  · rw [step_phase_of_ne hother]
    exact h

/-- An access that goes ahead keeps going. -/
theorem Mediation.step_goesAhead (h : (s.phase access).GoesAhead (accesses access).regs.ax)
    (o : Occurrence κ δ) :
    ((Mediation.step accesses o s).phase access).GoesAhead (accesses access).regs.ax := by
  by_cases hother : o.subject = some access
  · cases o with
    | call e => cases hother
    | enter a =>
      obtain rfl : a = access := Option.some.inj hother
      rcases h with h | h | h <;> simp [Mediation.step, AccessPhase.GoesAhead, h]
    | leave a =>
      obtain rfl : a = access := Option.some.inj hother
      rcases h with h | h | h <;> simp [Mediation.step, AccessPhase.GoesAhead, h]
    | work place w => cases hother
  · rw [step_phase_of_ne hother]
    exact h

variable (accesses) in
/-- The entry of an access decides. -/
theorem Mediation.enter_phase (s : Mediation κ) (access : κ) :
    (s.denies accesses access = true → ((s.enter accesses access).phase access).Denied) ∧
      (s.denies accesses access = false →
        ((s.enter accesses access).phase access).GoesAhead (accesses access).regs.ax) := by
  unfold Mediation.denies Mediation.enter
  by_cases hintercepts : s.intercepts accesses access = true
  · rw [if_pos hintercepts, hintercepts, Bool.true_and]
    cases hentry : s.entry accesses access with
    | ok ret t =>
      by_cases hret : ret = KRP_TO_TAILHOOK
      · simp [hret, returned, AccessPhase.Denied]
      · simp [hret, returned, AccessPhase.GoesAhead]
    | error fault t => simp [returned, AccessPhase.GoesAhead]
  · rw [if_neg hintercepts, Bool.eq_false_iff.mpr hintercepts, Bool.false_and]
    simp [AccessPhase.GoesAhead]

/-- Whatever happens after its entry, an access that was denied there returns `-EACCES`, and another
one what its function returns. -/
theorem Mediation.returned_of_entered {value : ℤ} (houtside : s.phase access = .outside)
    (later : List (Occurrence κ δ))
    (hreturned : (run (Mediation.step accesses) (.enter access :: later) s).phase access =
      .returned value) :
    value = if s.denies accesses access then -EACCES else (accesses access).regs.ax := by
  have henter : Mediation.step accesses (.enter access) s = s.enter accesses access := by
    rw [Mediation.step, houtside]
  rw [run_cons, henter] at hreturned
  have hphase := s.enter_phase accesses access
  by_cases hdenies : s.denies accesses access = true
  · have hlast : ((run (Mediation.step accesses) later (s.enter accesses access)).phase access).Denied :=
      run_preserves _ (I := fun t : Mediation κ => (t.phase access).Denied) (fun o t ht => step_denied ht o)
        (hphase.1 hdenies)
    rw [hreturned] at hlast
    rw [if_pos hdenies]
    simpa [AccessPhase.Denied] using hlast
  · have hlast : ((run (Mediation.step accesses) later (s.enter accesses access)).phase access).GoesAhead
        (accesses access).regs.ax :=
      run_preserves _ (I := fun t : Mediation κ => (t.phase access).GoesAhead (accesses access).regs.ax)
        (fun o t ht => step_goesAhead ht o) (hphase.2 (Bool.eq_false_iff.mpr hdenies))
    rw [hreturned] at hlast
    rw [if_neg hdenies]
    simpa [AccessPhase.GoesAhead] using hlast

end Phases

/-- The hook of the probe on the function denies. -/
def Vfs.Denies (fs : Vfs δ) (registry : List RegistryEntry) : Target δ → Prop
  | .vfsOpen dentry fFlags => fs.DeniesOpen registry dentry fFlags
  | .mayDelete dentry => fs.DeniesRm registry dentry
  | .securityPathMkdir dentry => fs.DeniesMkdir registry dentry
  | .securityPathRmdir dentry => fs.DeniesMkdir registry dentry

/-- The entry handler runs in a namespace that stands still, with memory, on a dentry whose path can be
printed. -/
structure Access.EntersIn (a : Access δ) (fs : Vfs δ) : Prop where
  sees : a.entryEnv.Sees fs
  absolute : fs.Absolute
  hasPath : ∃ path, fs.dentryPathRaw a.target.dentry = .ok path
  allocates : a.entryEnv.Allocates

variable {fs : Vfs δ}

/-- The answer of an entry handler is a decision. -/
theorem returned_entryHandler {env : Env δ} {target : Target δ} (hsees : env.Sees fs) (habs : fs.Absolute)
    (hpath : ∃ path, fs.dentryPathRaw target.dentry = .ok path) (halloc : env.Allocates) (k : Kernel) :
    returned (target.entryHandler env k) = some KRP_TO_TAILHOOK ↔
      fs.Denies k.core.theInstance.registry target := by
  obtain ⟨path, hraw⟩ := hpath
  have hiff {hook : K ℤ} {denies : Prop} (h : wp hook (fun ret t => Decides env denies ret ∧ Same k t)
      (fun _ _ => False) k) : returned (hook k) = some KRP_TO_TAILHOOK ↔ denies := by
    obtain ⟨hcomplete, hsound⟩ := returned_iff_of_decides h
    exact ⟨hsound, hcomplete halloc⟩
  cases target with
  | vfsOpen dentry fFlags => exact hiff (wp_krpHookOpen hsees habs hraw fFlags)
  | mayDelete dentry => exact hiff (wp_krpHookRm hsees habs hraw)
  | securityPathMkdir dentry => exact hiff (wp_krpHookMkdir hsees habs hraw)
  | securityPathRmdir dentry => exact hiff (wp_krpHookMkdir hsees habs hraw)

omit [DecidableEq κ] in
/-- An access is denied at its entry when its probe is enabled and has a free instance, and the registry
covers what is accessed. -/
theorem Mediation.denies_iff (h : (accesses access).EntersIn fs) :
    s.denies accesses access = true ↔
      s.kernel.core.enabled (accesses access).target.probe = true ∧
        s.held accesses (accesses access).target.probe < REFMON_PROBES_NO ∧
        fs.Denies s.kernel.core.theInstance.registry (accesses access).target := by
  have hmax : (accesses access).target.probe.kretprobe.maxactive = REFMON_PROBES_NO := by
    cases (accesses access).target.probe <;> rfl
  have hdecides := returned_entryHandler h.sees h.absolute h.hasPath h.allocates s.kernel
  rw [Mediation.denies, Mediation.intercepts, Mediation.entry, Bool.and_eq_true, Bool.and_eq_true,
    decide_eq_true_eq, beq_iff_eq, hmax, hdecides, and_assoc]

section OwnFile

/-- The program `/a` opens itself for writing. -/
def opensItself (_ : Unit) : Access Dentry :=
  ⟨.vfsOpen rootA O_WRONLY, runs rootA, shadowedView.calm ciaoSha256, shadowedView.calm ciaoSha256,
    vfsOpenRegs rootA O_WRONLY (.int 0) 0⟩

theorem opensItself_entersIn : (opensItself ()).EntersIn shadowedView :=
  ⟨Vfs.calm_sees _ _, shadowedNs.view_absolute _, ⟨_, rootA_ownPath⟩, fun _ => rfl⟩

/-- The module where the program's file is registered. -/
abbrev ownFile : Mediation Unit := .start (shadowedOn (lit "/a")) newLog

theorem ownFile_denies :
    ownFile.kernel.core.enabled (opensItself ()).target.probe = true ∧
      ownFile.held opensItself (opensItself ()).target.probe < REFMON_PROBES_NO ∧
      shadowedView.Denies ownFile.kernel.core.theInstance.registry (opensItself ()).target := by
  have hdenies : ownFile.denies opensItself () = true := by decide +kernel
  exact (Mediation.denies_iff opensItself_entersIn).mp hdenies

end OwnFile

section Persistence

/-- The caller has no right to make the call: it is not root, or it asks for a reconfiguration while the
state does not admit one, or with a password that is not the one. -/
def Event.Unauthorised (e : Event δ) (k : Kernel) : Prop :=
  e.env.euid ≠ GLOBAL_ROOT_UID ∨
    (∀ newState, e.call ≠ .setState newState) ∧
      (isReconf k.core.theInstance = false ∨
        e.call.password.Stable ∧ ¬ Authorised e.env k e.call.password)

/-- Such a call changes nothing that lasts, and does not return zero. -/
theorem Event.Unauthorised.refused {e : Event δ} {k : Kernel} (h : e.Unauthorised k) :
    (step e k).core = k.core ∧ returned (e.result k) ≠ some 0 := by
  have hnochange (t : Kernel) (hchanges : e.Changes k t) : False := by
    rcases hchanges.reconfigured with ⟨newState, hcall⟩ | ⟨change, hreconf⟩
    · rcases h with hroot | ⟨hnot, -⟩
      · exact hroot (hchanges.setState hcall).1
      · exact hnot newState hcall
    · rcases h with hroot | ⟨-, hstate | ⟨hstable, hauth⟩⟩
      · exact hroot hreconf.root
      · exact absurd (hstate.symm.trans hreconf.reconf) Bool.false_ne_true
      · exact hauth (hreconf.authorised hstable)
  constructor
  · rcases step_cases e k with hcore | ⟨-, hchanges⟩
    · exact hcore
    · exact (hnochange _ hchanges).elim
  · intro hzero
    exact hnochange _ (changes_of_result (returned_eq_some hzero))

/-- The module lasts through a run in which nobody makes a call that they have a right to make. -/
theorem Mediation.run_core {events : List (Occurrence κ δ)}
    (h : EveryStep (Mediation.step accesses) (fun o t => ∀ e, o = .call e → e.Unauthorised t.kernel)
      events s) : (run (Mediation.step accesses) events s).kernel.core = s.kernel.core := by
  apply run_invariant (Mediation.step accesses) (I := fun t : Mediation κ => t.kernel.core = s.kernel.core) _
    h rfl
  intro o t hunauthorised ht
  cases o with
  | call e => exact (hunauthorised e rfl).refused.1.trans ht
  | enter a => exact (t.step_core (o := .enter a) fun _ => nofun).trans ht
  | leave a => exact (t.step_core (o := .leave a) fun _ => nofun).trans ht
  | work place w => exact (t.step_core (o := .work place w) fun _ => nofun).trans ht

/-- An access whose entry comes in a run was outside until then. -/
theorem Mediation.outside_until {first : List (Occurrence κ δ)} (houtside : s.phase access = .outside)
    (hnot : ∀ o ∈ first, o ≠ .enter access) :
    (run (Mediation.step accesses) first s).phase access = .outside := by
  have hevery : EveryStep (Mediation.step accesses) (fun o _ => o ≠ .enter access) first s :=
    everyStep_of_forall _ (fun o ho _ => hnot o ho) s
  apply run_invariant (Mediation.step accesses) (I := fun t : Mediation κ => t.phase access = .outside) _ hevery
    houtside
  intro o t hne ht
  by_cases hsubject : o.subject = some access
  · cases o with
    | call e => cases hsubject
    | enter a =>
      obtain rfl : a = access := Option.some.inj hsubject
      exact absurd rfl hne
    | leave a =>
      obtain rfl : a = access := Option.some.inj hsubject
      rw [Mediation.step, ht]
      exact ht
    | work place w => cases hsubject
  · rw [step_phase_of_ne hsubject]
    exact ht

/-- Protection lasts: as long as nobody makes a call that they have a right to make, every access to what the
registry covers now returns `-EACCES`, if it finds a free instance at its entry. -/
theorem protection_persists (h : (accesses access).EntersIn fs) (houtside : s.phase access = .outside)
    (hprobed : s.kernel.core.enabled (accesses access).target.probe = true)
    (hcovers : fs.Denies s.kernel.core.theInstance.registry (accesses access).target)
    {events : List (Occurrence κ δ)}
    (hunauthorised : EveryStep (Mediation.step accesses)
      (fun o t => ∀ e, o = .call e → e.Unauthorised t.kernel) events s)
    (hfree : EveryStep (Mediation.step accesses)
      (fun o t => o = .enter access → t.held accesses (accesses access).target.probe < REFMON_PROBES_NO)
      events s)
    {value : ℤ} (hreturned : (run (Mediation.step accesses) events s).phase access = .returned value) :
    value = -EACCES := by
  by_cases hmem : Occurrence.enter access ∈ events
  · obtain ⟨first, later, rfl, hfirst⟩ := List.eq_append_cons_of_mem hmem
    rw [everyStep_append] at hunauthorised hfree
    have hcore := Mediation.run_core hunauthorised.1
    have hstill : (run (Mediation.step accesses) first s).phase access = .outside :=
      Mediation.outside_until houtside fun o ho heq => hfirst (heq ▸ ho)
    rw [run_append] at hreturned
    have hdecided := Mediation.returned_of_entered hstill later hreturned
    rw [← hcore] at hprobed hcovers
    rwa [if_pos ((Mediation.denies_iff h).mpr ⟨hprobed, hfree.2.1 rfl, hcovers⟩)] at hdecided
  · have hstill : (run (Mediation.step accesses) events s).phase access = .outside :=
      Mediation.outside_until houtside fun o ho heq => hmem (heq ▸ ho)
    rw [hreturned] at hstill
    cases hstill

end Persistence

section Off

/-- A call that leaves the state an off-state enables no probe. -/
theorem step_disabled {e : Event δ} {k : Kernel} (hdisabled : ∀ probe, k.core.enabled probe = false)
    (hoff : isOff (step e k).core.theInstance = true) (probe : Probe) : (step e k).core.enabled probe = false := by
  rcases step_cases e k with hcore | ⟨-, hchanges⟩
  · rw [hcore]
    exact hdisabled probe
  · rcases hchanges.reconfigured with ⟨newState, hcall⟩ | ⟨change, hreconf⟩
    · obtain ⟨env, call⟩ := e
      cases hcall
      obtain ⟨-, -, -, state, -, -, -, hcore⟩ := hchanges
      rw [hcore, Core.withState] at hoff ⊢
      dsimp only at hoff ⊢
      rw [isOn, hoff]
      simp [enabledAfter, enabledAfterOff, hdisabled]
    · rw [hreconf.frame.2.1]
      exact hdisabled probe

/-- The module is not noticed: no probe is enabled, every access goes ahead, no work waits, and neither
the log nor what was denied and scheduled has changed since. -/
structure Mediation.Unnoticed (s : Mediation κ) (accesses : κ → Access δ) (since : Mediation κ) : Prop where
  disabled : ∀ probe, s.kernel.core.enabled probe = false
  phase : ∀ access, s.phase access = .outside ∨ (s.phase access).GoesAhead (accesses access).regs.ax
  works : s.works = []
  log : s.log = since.log
  denied : s.denied = since.denied
  scheduled : s.scheduled = since.scheduled

variable {since : Mediation κ}

theorem Mediation.Unnoticed.move (h : s.Unnoticed accesses since) {phase : AccessPhase}
    (hphase : phase.GoesAhead (accesses access).regs.ax) : (s.move access phase).Unnoticed accesses since where
  disabled := h.disabled
  phase other := by
    by_cases heq : other = access
    · rw [heq, move_phase_self]
      exact .inr hphase
    · rw [move_phase_of_ne heq]
      exact h.phase other
  works := h.works
  log := h.log
  denied := h.denied
  scheduled := h.scheduled

/-- It stays so as long as no call sets an on-state. -/
theorem Mediation.Unnoticed.step (h : s.Unnoticed accesses since) (o : Occurrence κ δ)
    (hoff : ∀ e, o = .call e → isOff (Refmon.step e s.kernel).core.theInstance = true) :
    (Mediation.step accesses o s).Unnoticed accesses since := by
  cases o with
  | call e =>
    exact ⟨step_disabled h.disabled (hoff e rfl), h.phase, h.works, h.log, h.denied, h.scheduled⟩
  | enter access =>
    have hnot : s.intercepts accesses access = false := by
      rw [Mediation.intercepts, h.disabled, Bool.false_and]
    rw [Mediation.step]
    split
    · rw [Mediation.enter, hnot]
      exact h.move (.inl rfl)
    · exact h
  | leave access =>
    rw [Mediation.step]
    split
    · rename_i harmed
      rcases h.phase access with hphase | hphase | hphase | hphase <;> rw [harmed] at hphase <;> cases hphase
    · exact h.move (.inr (.inr rfl))
    · exact h
  | work place w =>
    rw [Mediation.step, Mediation.runWork]
    split
    · exact h
    · rw [h.works]
      exact h

end Off

end Refmon
