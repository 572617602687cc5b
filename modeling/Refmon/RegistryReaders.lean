import Refmon.Library.ListSearches
import Refmon.Library.Traces
import Refmon.LinkedRuns

/-!
# Hooks that search while the registry is changed

A hook searches the registry without `spinlock_inst`, while a call that holds it may be changing the
list. Here the handlers run as before, but the stores they make to the links reach the memory one at a
time, and between two of them any hook may follow a link or test a node. The next call waits for the
lock until the last store has been made. Stores reach the memory in the order in which they are made.

A search for the empty path, which looks at no node, is left out.
-/

namespace Refmon

open LinkedList ListReaders Runs Traces Wp

/-- The criteria of `is_eligible`. -/
def eligibleCriteria : ℕ :=
  REFMON_SEARCH_CRIT_ABSOLUTE_PATH ||| REFMON_SEARCH_CRIT_ABSOLUTE_INO ||| REFMON_SEARCH_CRIT_SUBDIR_CHECK

/-- The test of an entry by `is_eligible`, with what `is_dir` answers for it. -/
def eligibleBy (id : PathIdentifier) (entry : RegistryEntry) (dir : ℤ) : Bool :=
  matchesFields eligibleCriteria entry id.path id.inoNo ||
    (dir != 0 && isSubpath entry.resolved.path id.path)

/-- The module, the changes of the list that the last call has yet to make, and the memory that the
searches read. -/
structure Monitor (ι : Type) where
  kernel : Kernel
  nodes : List RegistryEntry
  todo : List Update
  memory : ListReaders.State ι Place

/-- What may happen next: a call, the next store of the call that runs, or a step of a search. -/
inductive Happening (ι δ : Type)
  | call (e : Event δ)
  | write
  | enter (search : ι)
  | follow (search : ι)
  | test (search : ι) (dir : ℤ)

section

variable {ι δ : Type} [DecidableEq ι] (ids : ι → PathIdentifier)

/-- The outcome of a test of the node that the search has reached. -/
def Monitor.hits (s : Monitor ι) (search : ι) (dir : ℤ) : Bool :=
  match s.memory.cursor search with
  | .reached (.node n) =>
    match s.nodes[n]? with
    | some entry => eligibleBy (ids search) entry dir
    | none => false
  | _ => false

/-- The change as the list's writer begins it. -/
def Update.action : Update → Action ι Place
  | .insert n => .insert (.node n)
  | .remove n => .remove (.node n)

/-- A step of the list: of its writer, or of a search. -/
def Monitor.act (s : Monitor ι) (action : Action ι Place) : Monitor ι :=
  { s with memory := ListReaders.step .head action s.memory }

/-- One happening. A call does not begin before the last one has made its stores. -/
def Monitor.step (happening : Happening ι δ) (s : Monitor ι) : Monitor ι :=
  match happening with
  | .call e =>
    if s.todo = [] ∧ s.memory.pending = [] then
      let l := linkedStep e ⟨s.kernel, ⟨s.memory.links, s.nodes, []⟩⟩
      { s with kernel := l.kernel, nodes := l.heap.nodes, todo := l.heap.updates }
    else s
  | .write =>
    match s.memory.pending, s.todo with
    | [], [] => s
    | [], update :: rest => { s with todo := rest }.act update.action
    | _, _ => s.act .store
  | .enter search => if (ids search).path = [] then s else s.act (.enter search)
  | .follow search => s.act (.follow search)
  | .test search dir => s.act (.test search (s.hits ids search dir))

/-- What a happening is for the list. -/
def Happening.action (happening : Happening ι δ) (s : Monitor ι) : Action ι Place :=
  match happening with
  | .call _ => .other
  | .write =>
    match s.memory.pending, s.todo with
    | [], [] => .other
    | [], update :: _ => update.action
    | _, _ => .store
  | .enter search => if (ids search).path = [] then .other else .enter search
  | .follow search => .follow search
  | .test search dir => .test search (s.hits ids search dir)

/-- The memory takes the steps of a list with readers. -/
theorem embeds_memory : Embeds (Monitor.step (δ := δ) ids) (ListReaders.step .head) Monitor.memory
    (Happening.action ids) := by
  intro happening s
  cases happening with
  | call e =>
    rw [Monitor.step]
    split <;> rfl
  | write =>
    simp only [Monitor.step, Happening.action]
    split <;> rfl
  | enter search =>
    simp only [Monitor.step, Happening.action]
    split <;> rfl
  | follow search => rfl
  | test search dir => rfl

/-- The calls that begin with a happening. -/
def Happening.calls (happening : Happening ι δ) (s : Monitor ι) : List (Event δ) :=
  match happening with
  | .call e => if s.todo = [] ∧ s.memory.pending = [] then [e] else []
  | _ => []

/-- The module is the one with this registry, up to the changes of the list that are still to come. -/
structure Monitor.Owes (s : Monitor ι) (k : Kernel) (target ns : List ℕ) (fresh : ℕ) : Prop where
  kernel : k = s.kernel.withRegistry k.core.theInstance.registry
  entries : List.Forall₂ (fun n entry => s.nodes[n]? = some entry) ns k.core.theInstance.registry
  todo : Performs s.todo fresh target s.nodes.length ns
  reaches : IsList (applyAll s.memory.pending s.memory.links) .head (target.map .node)
  below : ∀ n ∈ target, n < fresh
  used : ∀ place ∈ s.memory.used, ∃ n < fresh, place = .node n
  count : s.memory.used.length = fresh

variable {ids} {s : Monitor ι} {k : Kernel} {target ns : List ℕ} {fresh : ℕ}

/-- A step of a search changes nothing of that. -/
theorem Monitor.Owes.act (h : s.Owes k target ns fresh) {action : Action ι Place}
    (hlinks : (ListReaders.step .head action s.memory).links = s.memory.links)
    (hpending : (ListReaders.step .head action s.memory).pending = s.memory.pending)
    (hused : (ListReaders.step .head action s.memory).used = s.memory.used) :
    (s.act action).Owes k target ns fresh := by
  refine ⟨h.kernel, h.entries, h.todo, ?_, h.below, ?_, (congrArg List.length hused).trans h.count⟩
  · have htarget := h.reaches
    rw [← hlinks, ← hpending] at htarget
    exact htarget
  · have hused' := h.used
    rw [← hused] at hused'
    exact hused'

/-- A store that the writer makes brings the list closer to its target. -/
theorem Monitor.Owes.store (h : s.Owes k target ns fresh) : (s.act .store).Owes k target ns fresh := by
  have htarget := h.reaches
  have hused : (s.act .store).memory.used = s.memory.used := by
    simp only [Monitor.act, ListReaders.step]
    split <;> rfl
  refine ⟨h.kernel, h.entries, h.todo, ?_, h.below, ?_, (congrArg List.length hused).trans h.count⟩
  · simp only [Monitor.act, ListReaders.step]
    split
    · exact htarget
    · rename_i first rest hpending
      rw [hpending] at htarget
      exact htarget
  · rw [hused]
    exact h.used

/-- The writer begins its next change, which it may. -/
theorem Monitor.Owes.begin (h : s.Owes k target ns fresh) {update : Update} {rest : List Update}
    (hpending : s.memory.pending = []) (htodo : s.todo = update :: rest) :
    Allowed .head update.action s.memory ∧
      ∃ target' fresh', (Monitor.act { s with todo := rest } update.action).Owes k target' ns fresh' := by
  have hlist : IsList s.memory.links .head (target.map .node) := by
    have htarget := h.reaches
    rw [hpending] at htarget
    exact htarget
  have hperforms := h.todo
  rw [htodo] at hperforms
  cases hperforms with
  | insert hrest =>
    have hunused : Place.node fresh ∉ Place.head :: s.memory.used := by
      rw [List.mem_cons, not_or]
      refine ⟨nofun, fun hmem => ?_⟩
      obtain ⟨n, hlt, heq⟩ := h.used _ hmem
      cases heq
      exact Nat.lt_irrefl _ hlt
    have hnew : Place.node fresh ∉ Place.head :: target.map .node := by
      simp only [List.mem_cons, reduceCtorEq, List.mem_map, Place.node.injEq, exists_eq_right, false_or]
      exact fun hmem => Nat.lt_irrefl _ (h.below _ hmem)
    obtain ⟨after, hafter, htarget⟩ := hlist.addTail hnew
    rw [Links.addTail, hlist.prev_head, Option.map_some, Option.some_inj] at hafter
    have hstep : ListReaders.step .head (.insert (.node fresh)) s.memory = { s.memory with
        pending := addTailStores .head (.node fresh) ((target.map Place.node).getLastD .head),
        used := .node fresh :: s.memory.used } := by
      simp only [ListReaders.step, hpending, hlist.prev_head]
    refine ⟨hunused, target ++ [fresh], fresh + 1, h.kernel, h.entries, hrest, ?_, ?_, ?_, ?_⟩
    · rw [Monitor.act, Update.action, hstep, List.map_append]
      rw [← hafter] at htarget
      exact htarget
    · intro n hn
      rcases List.mem_append.mp hn with hn | hn
      · exact Nat.lt_succ_of_lt (h.below n hn)
      · rw [List.mem_singleton.mp hn]
        exact Nat.lt_succ_self fresh
    · rw [Monitor.act, Update.action, hstep]
      intro place hplace
      rcases List.mem_cons.mp hplace with rfl | hplace
      · exact ⟨fresh, Nat.lt_succ_self fresh, rfl⟩
      · obtain ⟨n, hlt, rfl⟩ := h.used place hplace
        exact ⟨n, Nat.lt_succ_of_lt hlt, rfl⟩
    · rw [Monitor.act, Update.action, hstep]
      exact congrArg Nat.succ h.count
  | @remove n _ _ _ _ _ hmem hrest =>
    have hnodup : target.Nodup := (List.nodup_cons.mp hlist.nodup).2.of_map
    obtain ⟨front, back, rfl⟩ := List.append_of_mem hmem
    have hfront : n ∉ front := fun hn => (List.nodup_append.mp hnodup).2.2 n hn n List.mem_cons_self rfl
    rw [List.erase_append_right _ hfront, List.erase_cons_head] at hrest
    rw [List.map_append, List.map_cons] at hlist
    obtain ⟨hprev, hnext⟩ := hlist.neighbours
    obtain ⟨after, hafter, htarget, -⟩ := hlist.delete
    simp only [Links.delete, hprev, hnext, Option.some_inj] at hafter
    have hstep : ListReaders.step .head (.remove (.node n)) s.memory = { s.memory with
        pending := deleteStores (.node n) ((front.map Place.node).getLastD .head)
          ((back.map Place.node).headD .head) } := by
      simp only [ListReaders.step, hpending, hprev, hnext]
    refine ⟨?_, front ++ back, fresh, h.kernel, h.entries, hrest, ?_, ?_, ?_, ?_⟩
    · exact ⟨_, hlist.forward, (List.nodup_cons.mp hlist.nodup).1, by simp⟩
    · rw [Monitor.act, Update.action, hstep, List.map_append]
      rw [← hafter] at htarget
      exact htarget
    · intro m hm
      apply h.below
      rcases List.mem_append.mp hm with hm | hm
      · exact List.mem_append_left _ hm
      · exact List.mem_append_right _ (List.mem_cons_of_mem _ hm)
    · rw [Monitor.act, Update.action, hstep]
      exact h.used
    · rw [Monitor.act, Update.action, hstep]
      exact h.count

/-- A call that has the lock runs on the registry, and owes its changes of the list. -/
theorem Monitor.Owes.call (h : s.Owes k target ns fresh) (htodo : s.todo = []) (hpending : s.memory.pending = [])
    (e : Event δ) :
    s.nodes <+: (Monitor.step ids (.call e) s).nodes ∧
      ∃ target' ns' fresh', (Monitor.step ids (.call e) s).Owes (Refmon.step e k) target' ns' fresh' := by
  have hperforms := h.todo
  rw [htodo] at hperforms
  cases hperforms
  have hlists : Heap.Lists ⟨s.memory.links, s.nodes, []⟩ target k.core.theInstance.registry := by
    have hreaches := h.reaches
    rw [hpending] at hreaches
    exact ⟨hreaches, h.entries⟩
  obtain ⟨-, ns', registry', hlists', hk', hevolves⟩ :=
    ended_step (l := ⟨s.kernel, ⟨s.memory.links, s.nodes, []⟩⟩) hlists ⟨rfl, h.kernel⟩ e
  obtain ⟨updates, hupdates, hperforms⟩ := hevolves.updates
  rw [List.nil_append] at hupdates
  rw [← hupdates] at hperforms
  rw [Monitor.step, if_pos ⟨htodo, hpending⟩, hk']
  exact ⟨hevolves.nodes, target, ns', s.nodes.length, rfl, hlists'.entries, hperforms, h.reaches, h.below, h.used,
    h.count⟩

/-- Whatever happens, the module stays the one that has made the calls so far, and the nodes are not
freed. -/
theorem Monitor.Owes.step (ids : ι → PathIdentifier) (h : s.Owes k target ns fresh) (happening : Happening ι δ) :
    Allowed .head (happening.action ids s) s.memory ∧ s.nodes <+: (Monitor.step ids happening s).nodes ∧
      ∃ target' ns' fresh',
        (Monitor.step ids happening s).Owes (run Refmon.step (happening.calls s) k) target' ns' fresh' := by
  cases happening with
  | call e =>
    refine ⟨trivial, ?_⟩
    by_cases hidle : s.todo = [] ∧ s.memory.pending = []
    · rw [Happening.calls, if_pos hidle]
      exact h.call hidle.1 hidle.2 e
    · rw [Happening.calls, if_neg hidle, Monitor.step, if_neg hidle]
      exact ⟨List.prefix_rfl, target, ns, fresh, h⟩
  | write =>
    simp only [Happening.action, Monitor.step, Happening.calls]
    split
    · exact ⟨trivial, List.prefix_rfl, target, ns, fresh, h⟩
    · rename_i update rest hpending htodo
      obtain ⟨hallowed, target', fresh', howes⟩ := h.begin hpending htodo
      exact ⟨hallowed, List.prefix_rfl, target', ns, fresh', howes⟩
    · exact ⟨trivial, List.prefix_rfl, target, ns, fresh, h.store⟩
  | enter search =>
    simp only [Happening.action, Monitor.step, Happening.calls]
    split
    · exact ⟨trivial, List.prefix_rfl, target, ns, fresh, h⟩
    · refine ⟨trivial, List.prefix_rfl, target, ns, fresh, h.act ?_ ?_ ?_⟩ <;>
      · simp only [ListReaders.step]
        split <;> rfl
  | follow search => exact ⟨trivial, List.prefix_rfl, target, ns, fresh, h.act rfl rfl rfl⟩
  | test search dir => exact ⟨trivial, List.prefix_rfl, target, ns, fresh, h.act rfl rfl rfl⟩

end

section Reachable

variable {ι δ : Type} {ids : ι → PathIdentifier} {sha256 : List UInt8 → Digest} {s : Monitor ι} {k : Kernel}
  {search : ι} {n : ℕ} {entry : RegistryEntry} {happenings : List (Happening ι δ)}

/-- A call is made in a kernel with this hash function. -/
def Happening.Hashes (sha256 : List UInt8 → Digest) : Happening ι δ → Prop
  | .call e => e.env.sha256 = sha256
  | _ => True

/-- The module has just been loaded, and no hook searches yet. -/
def Monitor.Booted (δ : Type) (sha256 : List UInt8 → Digest) (s : Monitor ι) : Prop :=
  ∃ l, LinkedBooted δ sha256 l ∧ s = ⟨l.kernel, l.heap.nodes, [],
    ⟨l.heap.links, [], (List.range l.heap.nodes.length).map .node, fun _ => .idle⟩⟩

/-- The entry of the node is in the list that the searches see. -/
def Monitor.Lists (s : Monitor ι) (n : ℕ) : Prop := Listed s.memory.links.next .head (.node n)

variable [DecidableEq ι]

/-- The calls so far have made the module what it is, up to changes of the list still to come. -/
def Monitor.Sane (s : Monitor ι) : Prop :=
  (∃ k target ns fresh, s.Owes k target ns fresh) ∧
    Reach (ListReaders.step .head) (Start .head) (Allowed .head) s.memory

/-- The states that any interleaving of calls and searches reaches from a load. -/
def Monitor.Reachable (δ : Type) (ids : ι → PathIdentifier) (sha256 : List UInt8 → Digest) (s : Monitor ι) : Prop :=
  Reach (Monitor.step (δ := δ) ids) (Monitor.Booted δ sha256) (fun happening _ => happening.Hashes sha256) s

/-- What is known of every reachable state. -/
theorem Monitor.Reachable.owes (h : s.Reachable δ ids sha256) :
    (∃ k, Refmon.Reachable δ sha256 k ∧ ∃ target ns fresh, s.Owes k target ns fresh) ∧
      Reach (ListReaders.step .head) (Start .head) (Allowed .head) s.memory := by
  apply Reach.invariant h
  · rintro s ⟨l, hbooted, rfl⟩
    obtain ⟨k, hk, ns, hlists, heq⟩ := hbooted.represents
    refine ⟨⟨k, .start hk, ns, ns, l.heap.nodes.length, heq, hlists.entries, .done, hlists.isList,
      fun n hn => hlists.lt hn, ?_, by simp⟩, ?_⟩
    · intro place hplace
      obtain ⟨n, hn, rfl⟩ := List.mem_map.mp hplace
      exact ⟨n, List.mem_range.mp hn, rfl⟩
    · have hempty : k.core.theInstance.registry = [] := by rw [hk.loaded.2.1]
      rw [hempty] at hlists
      have hentries := hlists.entries
      cases hentries
      exact .start ⟨hlists.isList, rfl, fun _ => rfl⟩
  · intro happening s hhashes ⟨⟨k, hk, target, ns, fresh, howes⟩, hmemory⟩
    obtain ⟨hallowed, -, howes'⟩ := howes.step ids happening
    rw [embeds_memory ids happening s]
    refine ⟨⟨_, ?_, howes'⟩, hmemory.next _ hallowed⟩
    cases happening with
    | call e =>
      rw [Happening.calls]
      split
      · exact Reach.next e hk ⟨hhashes, trivial⟩
      · exact hk
    | _ => exact hk

theorem Monitor.Reachable.sane (h : s.Reachable δ ids sha256) : s.Sane := by
  obtain ⟨⟨k, -, howes⟩, hmemory⟩ := h.owes
  exact ⟨⟨k, howes⟩, hmemory⟩

theorem Monitor.Sane.allowed (h : s.Sane) (ids : ι → PathIdentifier) (happening : Happening ι δ) :
    Allowed .head (happening.action ids s) s.memory := by
  obtain ⟨⟨k, target, ns, fresh, howes⟩, -⟩ := h
  exact (howes.step ids happening).1

theorem Monitor.Sane.step (h : s.Sane) (happening : Happening ι δ) : (Monitor.step ids happening s).Sane := by
  have hallowed := h.allowed ids happening
  obtain ⟨⟨k, target, ns, fresh, howes⟩, hmemory⟩ := h
  obtain ⟨-, -, target', ns', fresh', howes'⟩ := howes.step ids happening
  refine ⟨⟨_, target', ns', fresh', howes'⟩, ?_⟩
  rw [embeds_memory ids happening s]
  exact hmemory.next _ hallowed

/-- A node keeps its entry. -/
theorem Monitor.Sane.entry_step (h : s.Sane) (hentry : s.nodes[n]? = some entry) (happening : Happening ι δ) :
    (Monitor.step ids happening s).nodes[n]? = some entry := by
  obtain ⟨⟨k, target, ns, fresh, howes⟩, -⟩ := h
  obtain ⟨-, ⟨more, hmore⟩, -⟩ := howes.step ids happening
  rw [← hmore, List.getElem?_append_left (List.getElem?_eq_some_iff.mp hentry).1]
  exact hentry

/-- Any run of happenings is an allowed run of the list and its searches. -/
theorem Monitor.Sane.everyStep (h : s.Sane) (happenings : List (Happening ι δ)) :
    EveryStep (ListReaders.step .head) (Allowed .head)
      (trace (Monitor.step ids) (Happening.action ids) happenings s) s.memory := by
  apply (embeds_memory ids).everyStep (C := fun _ t => t.Sane) fun happening t ht => ht.allowed ids happening
  rw [everyStep_iff]
  intro first happening rest _
  exact run_preserves _ (fun happening t ht => ht.step happening) h

end Reachable

section Sample

/-- The module loaded on a heap, before any call. -/
def bootedMonitor {δ : Type} (fs : Vfs δ) : Monitor Bool :=
  ⟨(linkedBooted fs).kernel, (linkedBooted fs).heap.nodes, [],
    ⟨(linkedBooted fs).heap.links, [], (List.range (linkedBooted fs).heap.nodes.length).map .node, fun _ => .idle⟩⟩

/-- One search for the root directory, and one for a file in it. -/
def sampleIds : Bool → PathIdentifier
  | true => ⟨lit "/", 2⟩
  | false => ⟨lit "/x", 9⟩

/-- The module when the root directory has been added. -/
def registering : Monitor Bool :=
  run (Monitor.step sampleIds) [.call (rootSetState rootOnly REFMON_STATE_STRING_RECON),
    .call (rootAdd rootOnly (lit "/")), .write, .write, .write, .write, .write] (bootedMonitor rootOnly)

theorem registering_reachable : registering.Reachable Unit sampleIds ciaoSha256 := by
  apply Reach.run
  · exact .start ⟨_, linkedBooted_of_returned (by decide +kernel), rfl⟩
  · exact ⟨rfl, rfl, trivial, trivial, trivial, trivial, trivial, trivial⟩

/-- The module when both searches have begun. -/
def searching : Monitor Bool :=
  run (Monitor.step (δ := Unit) sampleIds) [.enter true, .enter false] registering

theorem searching_reachable : searching.Reachable Unit sampleIds ciaoSha256 :=
  Reach.run registering_reachable ⟨trivial, trivial, trivial⟩

theorem searching_nodes : searching.nodes[0]? = some ⟨⟨lit "/", 2⟩, ⟨lit "/", 2⟩⟩ := by decide +kernel

theorem searching_lists : searching.Lists 0 := ⟨[.node 0], by decide +kernel⟩

end Sample

section Refinement

variable {ι δ : Type} [DecidableEq ι] {ids : ι → PathIdentifier} {sha256 : List UInt8 → Digest} {s : Monitor ι}

/-- At every moment the searches see a list without repetitions. When no call is at work, its entries
are the registry that the calls so far have made. -/
theorem monitor_refines (h : s.Reachable δ ids sha256) :
    (∃ places, Path s.memory.links.next .head places .head ∧ (Place.head :: places).Nodup) ∧
      ∃ k, Refmon.Reachable δ sha256 k ∧ k = s.kernel.withRegistry k.core.theInstance.registry ∧
        (s.todo = [] → s.memory.pending = [] →
          ∃ ns, Heap.Lists ⟨s.memory.links, s.nodes, []⟩ ns k.core.theInstance.registry) := by
  obtain ⟨⟨k, hk, target, ns, fresh, howes⟩, hmemory⟩ := h.owes
  obtain ⟨places, hholds, -⟩ := exists_holds hmemory
  refine ⟨⟨places, hholds.forward, hholds.nodup⟩, k, hk, howes.kernel, fun htodo hpending => ?_⟩
  have hperforms := howes.todo
  rw [htodo] at hperforms
  cases hperforms
  have hreaches := howes.reaches
  rw [hpending] at hreaches
  exact ⟨target, hreaches, howes.entries⟩

theorem monitor_refines_root :
    (∃ places, Path registering.memory.links.next .head places .head ∧ (Place.head :: places).Nodup) ∧
      ∃ k, Refmon.Reachable Unit ciaoSha256 k ∧
        k = registering.kernel.withRegistry k.core.theInstance.registry ∧
        (registering.todo = [] → registering.memory.pending = [] →
          ∃ ns, Heap.Lists ⟨registering.memory.links, registering.nodes, []⟩ ns k.core.theInstance.registry) :=
  monitor_refines registering_reachable

end Refinement

end Refmon
