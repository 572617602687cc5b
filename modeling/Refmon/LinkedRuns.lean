import Refmon.LinkedRegistrySpecs

/-!
# Runs of the module on linked nodes

`init_module` makes an empty list of whatever lies in the memory of the list head, and from then on
every run of calls on the heap goes as the run of the same calls on the list of entries.
-/

namespace Refmon

open LinkedList Runs Simulation Wp

variable {δ α : Type} {env : Env δ} {heap : Heap} {ns : List ℕ} {registry : List RegistryEntry}
  {l : Linked} {k : Kernel}

/-- The same module, whose heap holds the registry. -/
def Linked.Represents (l : Linked) (k : Kernel) : Prop :=
  ∃ ns, l.heap.Lists ns k.core.theInstance.registry ∧
    k = l.kernel.withRegistry k.core.theInstance.registry

/-- The two calls end alike: with the same value, or with the same fault of the module. -/
def EndsAlike (r : EStateM.Result LinkFault Linked ℤ) (r' : EStateM.Result Fault Kernel ℤ) : Prop :=
  returned r = returned r' ∧ faultOf r = (faultOf r').map .module

/-- However a call ends, it leaves the same registry on both sides. -/
theorem ended_step (hlists : heap.Lists ns registry) (hfits : Fits heap registry l k) (e : Event δ) :
    EndsAlike (e.linkedResult l) (e.result k) ∧ Ended heap ns (linkedStep e l) (step e k) := by
  have hsim : Sim (fun ret l ret' k => ret = ret' ∧ Ended heap ns l k) (SameFault heap registry)
      (Linked.handler e.env e.call) (e.call.handler e.env) l k := sim_handler hlists hfits e.call
  unfold linkedStep step Event.linkedResult Event.result EndsAlike
  cases hrun : e.call.handler e.env k with
  | ok ret k' =>
    obtain ⟨ret', l', hlinked, rfl, hended⟩ := hsim.exists_ok hrun
    rw [hlinked]
    exact ⟨⟨rfl, rfl⟩, hended⟩
  | error fault k' =>
    obtain ⟨fault', l', hlinked, rfl, hfits'⟩ := hsim.exists_error hrun
    rw [hlinked]
    exact ⟨⟨rfl, rfl⟩, hlists.ended hfits'⟩

/-- One call does the same on both sides. -/
theorem represents_step (h : l.Represents k) (e : Event δ) :
    EndsAlike (e.linkedResult l) (e.result k) ∧ (linkedStep e l).Represents (step e k) := by
  obtain ⟨ns, hlists, hk⟩ := h
  obtain ⟨halike, ns', registry', hlists', hk', -⟩ := ended_step hlists ⟨rfl, hk⟩ e
  refine ⟨halike, ns', ?_⟩
  rw [hk']
  exact ⟨hlists', rfl⟩

/-- So does a run. -/
theorem represents_run (h : l.Represents k) (calls : List (Event δ)) :
    (run linkedStep calls l).Represents (run step calls k) := by
  induction calls generalizing l k with
  | nil => exact h
  | cons e calls ih => exact ih (represents_step h e).2

section Load

/-- Whatever lies in the list head, `init_instance` succeeds, and leaves an empty list. -/
theorem linked_initInstance (l : Linked) :
    ∃ l', Linked.initInstance l = .ok 0 l' ∧ IsList l'.heap.links .head [] ∧
      l'.heap.nodes = l.heap.nodes ∧ l'.heap.updates = l.heap.updates ∧
      l'.kernel = { l.kernel with core := { l.kernel.core with
        theInstance := { l.kernel.core.theInstance with state := .OFF } } } := by
  have hlist := isList_init l.heap.links Place.head
  refine ⟨⟨_, ⟨_, l.heap.nodes, l.heap.updates⟩⟩, ?_, hlist, rfl, rfl, rfl⟩
  have hcheck : ((applyAll (initStores Place.head) l.heap.links).next .head == some .head &&
      (applyAll (initStores Place.head) l.heap.links).prev .head == some .head) = true := by
    rw [hlist.forward.first, hlist.prev_head]
    rfl
  unfold Linked.initInstance
  simp only [bind, EStateM.bind, inKernel, put, initListHead, checkListInit, hcheck]
  rfl

/-- The kernel in which `check_list_init` succeeds. -/
def Env.listInit (env : Env δ) : Env δ := { env with checkListInit := true }

/-- How a load ends on both sides: when it succeeds, the heap holds the registry. -/
def Loads (ret : ℤ) (l : Linked) (ret' : ℤ) (k : Kernel) : Prop :=
  ret = ret' ∧ (ret = 0 → l.Represents k)

/-- A step of the load that does not see the registry, and ends the load when it fails. -/
theorem sim_loadStep {m : K ℤ} {next : L ℤ} {next' : K ℤ}
    (hblind : ∀ registry, Blind (Kernel.withRegistry registry) m) (h : Fits heap registry l k)
    (hnext : ∀ l k, Fits heap registry l k → Sim Loads (fun e _ e' _ => e = .module e') next next' l k) :
    Sim Loads (fun e _ e' _ => e = .module e')
      (do let ret ← inKernel m; if ret ≠ 0 then inKernel (abort ret) else next)
      (do let ret ← m; if ret ≠ 0 then abort ret else next') l k := by
  apply ((sim_inKernel hblind h).mono (fun _ _ _ _ h => h) fun _ _ _ _ h => h.1).bind
  rintro ret l _ k ⟨rfl, hfits⟩
  apply sim_ite
  · exact fun hret => ⟨rfl, fun hzero => absurd hzero hret⟩
  · exact fun _ => hnext l k hfits

/-- `init_module` on both sides. -/
theorem sim_initModule (l : Linked) (registry : List RegistryEntry) :
    Sim Loads (fun e _ e' _ => e = .module e') (Linked.initModule env) (initModule env.listInit) l
      (l.kernel.withRegistry registry) := by
  apply sim_loadStep (blind_initPassword env) ⟨rfl, rfl⟩
  intro l k hfits
  obtain ⟨l', hlinked, hlist, -, -, hl'⟩ := linked_initInstance l
  have hinit : initInstance env.listInit k = .ok 0 (l'.kernel.withRegistry []) := by
    rw [hfits.kernel, hl']
    rfl
  apply sim_bind_left hlinked
  apply sim_bind_right hinit
  have hempty : l'.heap.Lists [] [] := ⟨hlist, .nil⟩
  apply sim_loadStep (blind_createProcfiles env · procFiles) ⟨rfl, rfl⟩
  intro l k hfits
  apply sim_loadStep (blind_initSyscalls env) hfits
  intro l k hfits
  apply sim_loadStep (blind_registerProbes env · probes) hfits
  intro l k hfits
  rw [← hfits.heap] at hempty
  rw [hfits.kernel]
  exact ⟨rfl, fun _ => ⟨[], hempty, rfl⟩⟩

/-- The module has just been loaded, whatever lay in the memory of its list head. -/
def LinkedBooted (δ : Type) (sha256 : List UInt8 → Digest) (l : Linked) : Prop :=
  ∃ (env : Env δ) (start : Linked), env.sha256 = sha256 ∧ Fresh start.kernel ∧
    Linked.initModule env start = .ok 0 l

/-- A load on a heap is a load. -/
theorem LinkedBooted.represents {sha256 : List UInt8 → Digest} (h : LinkedBooted δ sha256 l) :
    ∃ k, Booted δ sha256 k ∧ l.Represents k := by
  obtain ⟨env, start, hsha, hfresh, hrun⟩ := h
  obtain ⟨ret, k, hk, rfl, hrepresents⟩ :=
    (sim_initModule start start.kernel.core.theInstance.registry).exists_ok_right hrun
  exact ⟨k, ⟨env.listInit, start.kernel, hsha, hfresh, hk⟩, hrepresents rfl⟩

end Load

/-- From the load on, every call on the heap ends as the call on the list of entries does, and leaves
its entries in the same order; none follows a poisoned link, or walks without end. -/
theorem linked_runs {sha256 : List UInt8 → Digest} (h : LinkedBooted δ sha256 l) :
    ∃ k, Booted δ sha256 k ∧ ∀ calls : List (Event δ),
      (run linkedStep calls l).Represents (run step calls k) ∧
      ∀ e : Event δ, EndsAlike (e.linkedResult (run linkedStep calls l)) (e.result (run step calls k)) := by
  obtain ⟨k, hbooted, hrepresents⟩ := h.represents
  refine ⟨k, hbooted, fun calls => ?_⟩
  have hrun := represents_run hrepresents calls
  exact ⟨hrun, fun e => (represents_step hrun e).1⟩

section Sample

/-- The module before its load, with a list head that leads nowhere. -/
def linkedInserted : Linked := ⟨inserted, ⟨⟨fun _ => none, fun _ => none⟩, [], []⟩⟩

/-- The module loaded on a heap in a kernel where nothing fails. -/
def linkedBooted (fs : Vfs δ) : Linked := after (Linked.initModule (fs.calm ciaoSha256) linkedInserted)

theorem linkedBooted_of_returned {fs : Vfs δ}
    (h : returned (Linked.initModule (fs.calm ciaoSha256) linkedInserted) = some 0) :
    LinkedBooted δ ciaoSha256 (linkedBooted fs) :=
  ⟨fs.calm ciaoSha256, linkedInserted, rfl, inserted_fresh, returned_eq_some h⟩

/-- The runs from a load where nothing fails. -/
theorem linked_runs_rootOnly :
    ∃ k, Booted Unit ciaoSha256 k ∧ ∀ calls : List (Event Unit),
      (run linkedStep calls (linkedBooted rootOnly)).Represents (run step calls k) ∧
      ∀ e : Event Unit, EndsAlike (e.linkedResult (run linkedStep calls (linkedBooted rootOnly)))
        (e.result (run step calls k)) :=
  linked_runs (linkedBooted_of_returned (by decide +kernel))

end Sample

end Refmon
