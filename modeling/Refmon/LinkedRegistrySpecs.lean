import Mathlib.Data.List.Forall2
import Refmon.LinkedRegistry

/-!
# The linked registry is the registry

The functions on linked nodes do what the functions on a list of entries do: they return the same
values, end in the same faults, and leave a heap whose list holds the entries in the same order. None
of them follows a poisoned link, reads memory that is no node, or walks without end.
-/

namespace Refmon

open LinkedList Runs Simulation Wp

/-- The heap holds these entries, in order, in these nodes. -/
structure Heap.Lists (heap : Heap) (ns : List ℕ) (registry : List RegistryEntry) : Prop where
  isList : IsList heap.links .head (ns.map .node)
  entries : List.Forall₂ (fun n entry => heap.nodes[n]? = some entry) ns registry

/-- The same module, with its registry in a heap and in a list. -/
structure Fits (heap : Heap) (registry : List RegistryEntry) (l : Linked) (k : Kernel) : Prop where
  heap : l.heap = heap
  kernel : k = l.kernel.withRegistry registry

/-- The same fault, before anything was done to the registry. -/
def SameFault (heap : Heap) (registry : List RegistryEntry) (e : LinkFault) (l : Linked) (e' : Fault)
    (k : Kernel) : Prop :=
  e = .module e' ∧ Fits heap registry l k

variable {δ α β β' : Type} {env : Env δ} {heap : Heap} {ns : List ℕ} {registry whole : List RegistryEntry}
  {l : Linked} {k : Kernel}

/-- Code that does not see the registry does the same beside a heap. -/
theorem sim_inKernel {m : K α} (hblind : ∀ registry, Blind (Kernel.withRegistry registry) m)
    (h : Fits heap registry l k) :
    Sim (fun a l b k => a = b ∧ Fits heap registry l k) (SameFault heap registry) (inKernel m) m l k := by
  rw [h.kernel]
  unfold Sim inKernel
  rw [hblind registry l.kernel]
  cases m l.kernel with
  | ok a k => exact ⟨rfl, h.heap, rfl⟩
  | error fault k => exact ⟨rfl, h.heap, rfl⟩

/-- Such code before the rest of a function. -/
theorem sim_inKernel_bind {m : K α} {f : α → L β} {g : α → K β'} {Q : β → Linked → β' → Kernel → Prop}
    (hblind : ∀ registry, Blind (Kernel.withRegistry registry) m) (h : Fits heap registry l k)
    (hnext : ∀ a l k, Fits heap registry l k → Sim Q (SameFault heap registry) (f a) (g a) l k) :
    Sim Q (SameFault heap registry) (inKernel m >>= f) (m >>= g) l k := by
  apply (sim_inKernel hblind h).bind
  rintro a l' b k' ⟨rfl, hfits⟩
  exact hnext a l' k' hfits

section Search

variable {criteria : ℕ} {path : CString} {inoNo : UInt64}

theorem blind_testNode (entry : RegistryEntry) (registry : List RegistryEntry) :
    Blind (Kernel.withRegistry registry) (testNode env criteria path inoNo entry) := by
  refine Blind.ite (Blind.pure _) (Blind.ite ?_ (Blind.pure _))
  exact (blind_isDir env registry _).bind fun _ => Blind.pure _

/-- The loop over the entries, one test at a time. -/
theorem searchNodes_cons (entry : RegistryEntry) (rest : List RegistryEntry) :
    searchNodes env criteria path inoNo (entry :: rest) = (do
      let hit ← testNode env criteria path inoNo entry
      if hit then pure (some entry) else searchNodes env criteria path inoNo rest) := by
  rw [searchNodes, testNode]
  split
  · rfl
  · split
    · rw [bind_assoc]
      congr 1
      funext dir
      rw [pure_bind]
      by_cases hdir : dir ≠ 0 ∧ isSubpath entry.resolved.path path = true
      · rw [if_pos hdir, if_pos (by simpa using hdir)]
      · rw [if_neg hdir, if_neg (by simpa using hdir)]
    · rfl

/-- The node and the entry that two searches find are in the same position, and no entry before it
agrees with what is searched for. -/
inductive Finds (criteria : ℕ) (path : CString) (inoNo : UInt64) (ns : List ℕ) (registry : List RegistryEntry) :
    Option ℕ → Option RegistryEntry → Prop
  | missed : Finds criteria path inoNo ns registry none none
  | found {front back : List ℕ} {n : ℕ} {before behind : List RegistryEntry} {entry : RegistryEntry} :
      ns = front ++ n :: back → registry = before ++ entry :: behind → front.length = before.length →
      (∀ other ∈ before, matchesFields criteria other path inoNo = false) →
      (hasFlag criteria REFMON_SEARCH_CRIT_SUBDIR_CHECK = false →
        matchesFields criteria entry path inoNo = true) →
      Finds criteria path inoNo ns registry (some n) (some entry)

/-- A search behind an entry that does not agree finds what is found from there on. -/
theorem Finds.cons {n : ℕ} {entry : RegistryEntry} {found : Option ℕ} {found' : Option RegistryEntry}
    (h : Finds criteria path inoNo ns registry found found')
    (hentry : matchesFields criteria entry path inoNo = false) :
    Finds criteria path inoNo (n :: ns) (entry :: registry) found found' := by
  cases h with
  | missed => exact .missed
  | @found front back m before behind other hns hregistry hlength hbefore hmatches =>
    have hns' : n :: ns = (n :: front) ++ m :: back := by rw [hns, List.cons_append]
    have hregistry' : entry :: registry = (entry :: before) ++ other :: behind := by
      rw [hregistry, List.cons_append]
    refine .found hns' hregistry' (by rw [List.length_cons, List.length_cons, hlength]) ?_ hmatches
    intro earlier hmem
    rcases List.mem_cons.mp hmem with rfl | hmem
    · exact hentry
    · exact hbefore earlier hmem

/-- The two searches from a place of the list find the same entry. -/
theorem sim_searchNodes {fuel : ℕ} {place : Place}
    (hentries : List.Forall₂ (fun n entry => heap.nodes[n]? = some entry) ns registry)
    (hpath : Path heap.links.next place (ns.map .node) .head) (hfuel : ns.length < fuel)
    (hfits : Fits heap whole l k) :
    Sim (fun found l found' k => Finds criteria path inoNo ns registry found found' ∧ Fits heap whole l k)
      (SameFault heap whole) (Linked.searchNodes env criteria path inoNo fuel place)
      (searchNodes env criteria path inoNo registry) l k := by
  induction hentries generalizing fuel place l k with
  | nil =>
    obtain ⟨fuel, rfl⟩ := Nat.exists_eq_succ_of_ne_zero (Nat.ne_of_gt hfuel)
    have hnext : nextOf place l = .ok .head l := by
      have hlink : heap.links.next place = some .head := hpath
      simp [nextOf, hfits.heap, hlink]
    exact sim_bind_left hnext ⟨.missed, hfits⟩
  | @cons n entry ns registry hentry hrest ih =>
    obtain ⟨fuel, rfl⟩ := Nat.exists_eq_succ_of_ne_zero (Nat.ne_of_gt (Nat.zero_lt_of_lt hfuel))
    obtain ⟨hlink, hpath⟩ := hpath
    have hnext : nextOf place l = .ok (.node n) l := by simp [nextOf, hfits.heap, hlink]
    have hread : entryOf n l = .ok entry l := by simp [entryOf, hfits.heap, hentry]
    have hfuel' : ns.length < fuel := Nat.lt_of_succ_lt_succ hfuel
    have hhere (h : hasFlag criteria REFMON_SEARCH_CRIT_SUBDIR_CHECK = false →
        matchesFields criteria entry path inoNo = true) :
        Finds criteria path inoNo (n :: ns) (entry :: registry) (some n) (some entry) :=
      .found (List.nil_append _).symm (List.nil_append _).symm rfl
        (fun _ hmem => absurd hmem List.not_mem_nil) h
    rw [searchNodes_cons]
    apply sim_bind_left hnext
    apply sim_bind_left hread
    by_cases hfields : matchesFields criteria entry path inoNo = true
    · have htest : testNode env criteria path inoNo entry = pure true := if_pos hfields
      rw [htest]
      exact ⟨hhere fun _ => hfields, hfits⟩
    · have hno : matchesFields criteria entry path inoNo = false := Bool.eq_false_iff.mpr hfields
      by_cases hsubdir : hasFlag criteria REFMON_SEARCH_CRIT_SUBDIR_CHECK = true
      · apply sim_inKernel_bind (blind_testNode entry) hfits
        intro hit l k hfits
        apply sim_ite
        · intro _
          exact ⟨hhere fun hoff => absurd hsubdir (Bool.eq_false_iff.mp hoff), hfits⟩
        · intro _
          exact (ih hpath hfuel' hfits).mono (fun _ _ _ _ h => ⟨h.1.cons hno, h.2⟩) fun _ _ _ _ h => h
      · have htest : testNode env criteria path inoNo entry = pure false := by
          rw [testNode, if_neg hfields, if_neg hsubdir]
        rw [htest]
        exact (ih hpath hfuel' hfits).mono (fun _ _ _ _ h => ⟨h.1.cons hno, h.2⟩) fun _ _ _ _ h => h

/-- The nodes of the list are among those that were allocated. -/
theorem Heap.Lists.lt (h : heap.Lists ns registry) {n : ℕ} (hn : n ∈ ns) : n < heap.nodes.length := by
  have hboth : List.Forall₂ (fun n entry => n < heap.nodes.length ∧ heap.nodes[n]? = some entry) ns registry :=
    h.entries.imp fun n entry hentry => ⟨(List.getElem?_eq_some_iff.mp hentry).1, hentry⟩
  exact ((List.forall₂_and_left ns registry).mp hboth).1 n hn

/-- So a walk over all of them is long enough. -/
theorem Heap.Lists.length_le (h : heap.Lists ns registry) : ns.length ≤ heap.nodes.length := by
  have hnodup : ns.Nodup := (List.nodup_cons.mp h.isList.nodup).2.of_map _
  have hsubset : ns ⊆ List.range heap.nodes.length := fun n hn => List.mem_range.mpr (h.lt hn)
  have hle := (List.subperm_of_subset hnodup hsubset).length_le
  rwa [List.length_range] at hle

/-- The list is empty when the registry is. -/
theorem Heap.Lists.listEmpty_eq (h : heap.Lists ns registry) (hheap : l.heap = heap) :
    listEmpty l = .ok registry.isEmpty l := by
  have hfirst : nextOf .head l = .ok ((ns.map Place.node).headD .head) l := by
    simp [nextOf, hheap, h.isList.forward.first]
  rw [listEmpty, bind_of_ok hfirst]
  have hentries := h.entries
  cases hentries <;> rfl

/-- What a search without a path finds is nothing. -/
def FindsBy (criteria : ℕ) (idPath : Option CString) (inoNo : UInt64) (ns : List ℕ)
    (registry : List RegistryEntry) (found : Option ℕ) (found' : Option RegistryEntry) : Prop :=
  match idPath with
  | none => found = none ∧ found' = none
  | some path => Finds criteria path inoNo ns registry found found'

/-- The two searches of the whole registry find the same entry. -/
theorem sim_searchEntry (h : heap.Lists ns registry) (hfits : Fits heap registry l k) (idPath : Option CString) :
    Sim (fun found l found' k => FindsBy criteria idPath inoNo ns registry found found' ∧ Fits heap registry l k)
      (SameFault heap registry) (Linked.searchEntry env idPath inoNo criteria)
      (searchEntry env idPath inoNo criteria) l k := by
  have hregistry : gets (fun core => core.theInstance.registry) k = .ok registry k := by
    rw [hfits.kernel]
    rfl
  have hmissed : FindsBy criteria idPath inoNo ns registry none none := by
    cases idPath with
    | none => exact ⟨rfl, rfl⟩
    | some path => exact .missed
  unfold Linked.searchEntry searchEntry
  apply sim_bind_left (h.listEmpty_eq hfits.heap)
  apply sim_bind_right hregistry
  apply sim_ite
  · exact fun _ => ⟨hmissed, hfits⟩
  · intro _
    cases idPath with
    | none => exact ⟨hmissed, hfits⟩
    | some path =>
      apply sim_ite
      · exact fun _ => ⟨hmissed, hfits⟩
      · intro _
        have hcount : allocated l = .ok heap.nodes.length l := by simp [allocated, hfits.heap]
        apply sim_bind_left hcount
        exact sim_searchNodes h.entries h.isList.forward (Nat.lt_succ_of_le h.length_le) hfits

/-- The two hooks' tests of an identifier agree. -/
theorem sim_isEligible (h : heap.Lists ns registry) (hfits : Fits heap registry l k) (id : PathIdentifier) :
    Sim (fun eligible l eligible' k => eligible = eligible' ∧ Fits heap registry l k) (SameFault heap registry)
      (Linked.isEligible env id) (isEligible env id) l k := by
  apply (sim_searchEntry h hfits (some id.path)).bind
  rintro found l found' k ⟨hfinds, hfits⟩
  refine ⟨?_, hfits⟩
  cases hfinds <;> rfl

/-- A node and the entry that it holds, the first of its kind in the registry. -/
inductive SameEntry (ns : List ℕ) (registry : List RegistryEntry) : Option ℕ → Option RegistryEntry → Prop
  | missed : SameEntry ns registry none none
  | found {front back : List ℕ} {n : ℕ} {before behind : List RegistryEntry} {entry : RegistryEntry} :
      ns = front ++ n :: back → registry = before ++ entry :: behind → front.length = before.length →
      entry ∉ before → SameEntry ns registry (some n) (some entry)

/-- The searches for a registered path find the same entry. -/
theorem sim_findEntryByRegpathAlloc (h : heap.Lists ns registry) (hfits : Fits heap registry l k)
    (registeredPath : Option CString) :
    Sim (fun found l found' k => SameEntry ns registry found found' ∧ Fits heap registry l k)
      (SameFault heap registry) (Linked.findEntryByRegpathAlloc env registeredPath)
      (findEntryByRegpathAlloc env registeredPath) l k := by
  apply sim_inKernel_bind (blind_resolvePathAlloc env · registeredPath _) hfits
  intro solved l k hfits
  cases solved with
  | none => exact ⟨.missed, hfits⟩
  | some solved =>
    apply (sim_searchEntry h hfits (some solved)).mono _ fun _ _ _ _ h => h
    rintro found l found' k ⟨hfinds, hfits⟩
    refine ⟨?_, hfits⟩
    cases hfinds with
    | missed => exact .missed
    | found hns hregistry hlength hbefore hmatches =>
      refine .found hns hregistry hlength fun hmem => ?_
      exact Bool.false_ne_true ((hbefore _ hmem).symm.trans (hmatches (by decide)))

end Search

section Changes

/-- These changes, made one after the other, lead from one list to another; a new node has the next
number. -/
inductive Performs : List Update → ℕ → List ℕ → ℕ → List ℕ → Prop
  | done {fresh : ℕ} {ns : List ℕ} : Performs [] fresh ns fresh ns
  | insert {fresh fresh' : ℕ} {ns ns' : List ℕ} {rest : List Update} :
      Performs rest (fresh + 1) (ns ++ [fresh]) fresh' ns' → Performs (.insert fresh :: rest) fresh ns fresh' ns'
  | remove {n fresh fresh' : ℕ} {ns ns' : List ℕ} {rest : List Update} : n ∈ ns →
      Performs rest fresh (ns.erase n) fresh' ns' → Performs (.remove n :: rest) fresh ns fresh' ns'

/-- The heap after changes of its list. -/
structure Evolves (heap : Heap) (ns : List ℕ) (heap' : Heap) (ns' : List ℕ) : Prop where
  nodes : heap.nodes <+: heap'.nodes
  updates : ∃ updates, heap'.updates = heap.updates ++ updates ∧
    Performs updates heap.nodes.length ns heap'.nodes.length ns'

variable {heap' : Heap} {ns' front back : List ℕ} {n : ℕ} {before behind : List RegistryEntry}
  {entry : RegistryEntry}

theorem Evolves.refl (heap : Heap) (ns : List ℕ) : Evolves heap ns heap ns :=
  ⟨List.prefix_rfl, [], (List.append_nil _).symm, .done⟩

/-- Lists that correspond still do without a pair that is in the same position. -/
theorem forall₂_remove {R : ℕ → RegistryEntry → Prop} (hlength : front.length = before.length)
    (h : List.Forall₂ R (front ++ n :: back) (before ++ entry :: behind)) :
    List.Forall₂ R (front ++ back) (before ++ behind) := by
  have hfront := List.forall₂_take_append _ _ _ h
  rw [← hlength, List.take_left] at hfront
  rw [List.append_cons front, List.append_cons before] at h
  have hback := List.forall₂_drop_append _ _ _ h
  rw [List.drop_left' (by rw [List.length_append, List.length_append, hlength]; rfl)] at hback
  exact List.rel_append hfront hback

/-- `list_add_tail` of a new node. -/
theorem Heap.Lists.add (h : heap.Lists ns registry) (hheap : l.heap = heap) (entry : RegistryEntry) :
    ∃ heap', (newNode entry >>= listAddTail) l = .ok ⟨⟩ { l with heap := heap' } ∧
      heap'.Lists (ns ++ [heap.nodes.length]) (registry ++ [entry]) ∧
      Evolves heap ns heap' (ns ++ [heap.nodes.length]) := by
  have hnew : Place.node heap.nodes.length ∉ Place.head :: ns.map .node := by
    simp only [List.mem_cons, reduceCtorEq, List.mem_map, Place.node.injEq, exists_eq_right, false_or]
    exact fun hmem => Nat.lt_irrefl _ (h.lt hmem)
  obtain ⟨links, hlinks, hlist⟩ := h.isList.addTail hnew
  refine ⟨⟨links, heap.nodes ++ [entry], heap.updates ++ [.insert heap.nodes.length]⟩, ?_, ⟨?_, ?_⟩, ?_, _, rfl, ?_⟩
  · simp only [bind, EStateM.bind, newNode, listAddTail, relink, hheap, hlinks]
  · rw [List.map_append]
    exact hlist
  · refine List.rel_append (h.entries.imp fun n entry hentry => ?_) (.cons ?_ .nil)
    · exact (List.getElem?_append_left (List.getElem?_eq_some_iff.mp hentry).1).trans hentry
    · simp
  · exact List.prefix_append _ _
  · have hlength : (heap.nodes ++ [entry]).length = heap.nodes.length + 1 := List.length_append
    rw [hlength]
    exact .insert .done

/-- `list_del` of a node of the list. -/
theorem Heap.Lists.del (h : heap.Lists (front ++ n :: back) (before ++ entry :: behind))
    (hlength : front.length = before.length) (hheap : l.heap = heap) :
    ∃ heap', listDel n l = .ok ⟨⟩ { l with heap := heap' } ∧ heap'.Lists (front ++ back) (before ++ behind) ∧
      heap'.nodes = heap.nodes ∧ heap'.updates = heap.updates ++ [.remove n] := by
  have hlist := h.isList
  rw [List.map_append, List.map_cons] at hlist
  obtain ⟨links, hlinks, hlist, -⟩ := hlist.delete
  refine ⟨⟨links, heap.nodes, heap.updates ++ [.remove n]⟩, ?_, ⟨?_, ?_⟩, rfl, rfl⟩
  · simp only [listDel, relink, hheap, hlinks]
  · rw [List.map_append]
    exact hlist
  · exact forall₂_remove hlength h.entries

/-- The link of the first place leads to the second. -/
theorem Heap.Lists.nextOf_first (h : heap.Lists ns registry) (hheap : l.heap = heap) :
    nextOf ((ns.map Place.node).headD .head) l = .ok ((ns.tail.map Place.node).headD .head) l := by
  have hlink : heap.links.next ((ns.map Place.node).headD .head) =
      some ((ns.tail.map Place.node).headD .head) := by
    cases ns with
    | nil => exact h.isList.forward.first
    | cons n ns => exact h.isList.forward.2.first
  simp only [nextOf, hheap, hlink]

/-- The loop of `do_flush_registry` takes out every node. -/
theorem Heap.Lists.flush {fuel : ℕ} (h : heap.Lists ns registry) (hheap : l.heap = heap)
    (hfuel : ns.length < fuel) :
    ∃ heap', Linked.flushNodes fuel ((ns.map Place.node).headD .head) ((ns.tail.map Place.node).headD .head) l =
        .ok ⟨⟩ { l with heap := heap' } ∧
      heap'.Lists [] [] ∧ heap'.nodes = heap.nodes ∧ heap'.updates = heap.updates ++ ns.map .remove := by
  induction ns generalizing fuel heap registry l with
  | nil =>
    obtain ⟨fuel, rfl⟩ := Nat.exists_eq_succ_of_ne_zero (Nat.ne_of_gt hfuel)
    refine ⟨heap, ?_, ⟨h.isList, .nil⟩, rfl, (List.append_nil _).symm⟩
    rw [← hheap]
    rfl
  | cons n ns ih =>
    obtain ⟨fuel, rfl⟩ := Nat.exists_eq_succ_of_ne_zero (Nat.ne_of_gt (Nat.zero_lt_of_lt hfuel))
    cases hregistry : registry with
    | nil => cases hregistry ▸ h.entries
    | cons entry rest =>
      rw [hregistry] at h
      have hfirst : heap.Lists ([] ++ n :: ns) ([] ++ entry :: rest) := h
      obtain ⟨heap₁, hdel, hlists, hnodes, hupdates⟩ := hfirst.del rfl hheap
      have hlists₁ : heap₁.Lists ns rest := hlists
      have hnext := hlists₁.nextOf_first (l := { l with heap := heap₁ }) rfl
      obtain ⟨heap₂, hrun, hempty, hnodes₂, hupdates₂⟩ :=
        ih (l := { l with heap := heap₁ }) hlists₁ rfl (Nat.lt_of_succ_lt_succ hfuel)
      refine ⟨heap₂, ?_, hempty, hnodes₂.trans hnodes, ?_⟩
      · exact (bind_of_ok hdel _).trans ((bind_of_ok hnext _).trans hrun)
      · rw [hupdates₂, hupdates, List.map_cons, List.append_assoc, List.singleton_append]

/-- Which is what a flush does to the list. -/
theorem performs_flush (fresh : ℕ) (ns : List ℕ) : Performs (ns.map .remove) fresh ns fresh [] := by
  induction ns with
  | nil => exact .done
  | cons n ns ih =>
    apply Performs.remove List.mem_cons_self
    rw [List.erase_cons_head]
    exact ih

end Changes

section Handlers

/-- A call has ended: the heap holds the registry, after changes that the call has made. -/
def Ended (heap : Heap) (ns : List ℕ) (l : Linked) (k : Kernel) : Prop :=
  ∃ ns' registry', l.heap.Lists ns' registry' ∧ k = l.kernel.withRegistry registry' ∧
    Evolves heap ns l.heap ns'

variable {ret : ℤ}

/-- The end of a handler releases the lock on both sides. -/
theorem sim_tail {E : LinkFault → Linked → Fault → Kernel → Prop} (h : Ended heap ns l k) :
    Sim (fun ret l ret' k => ret = ret' ∧ Ended heap ns l k) E (inKernel (tail ret)) (tail ret) l k := by
  obtain ⟨ns', registry', hlists, hk, hevolves⟩ := h
  rw [hk]
  exact ⟨rfl, ns', registry', hlists, rfl, hevolves⟩

/-- A handler that gives up has changed nothing. -/
theorem Heap.Lists.ended (h : heap.Lists ns registry) (hfits : Fits heap registry l k) : Ended heap ns l k := by
  refine ⟨ns, registry, ?_, hfits.kernel, ?_⟩
  · rw [hfits.heap]
    exact h
  · rw [hfits.heap]
    exact .refl heap ns

/-- `_add_file` on both sides. -/
theorem sim_addFile (h : heap.Lists ns registry) (hfits : Fits heap registry l k) (path : CString) :
    Sim (fun ret l ret' k => ret = ret' ∧ Ended heap ns l k) (SameFault heap registry)
      (Linked.addFile env path) (addFile env path) l k := by
  have hgiveup (ret : ℤ) {l : Linked} {k : Kernel} (hfits : Fits heap registry l k) :
      Sim (fun ret l ret' k => ret = ret' ∧ Ended heap ns l k) (SameFault heap registry)
        (pure ret : L ℤ) (pure ret : K ℤ) l k := ⟨rfl, h.ended hfits⟩
  apply sim_inKernel_bind (blind_ask · _) hfits
  intro buffer l k hfits
  refine sim_ite (fun _ => hgiveup _ hfits) fun _ => ?_
  apply sim_inKernel_bind (blind_resolvePathAlloc env · (some path) _) hfits
  intro registeredPath l k hfits
  cases registeredPath with
  | none => exact hgiveup _ hfits
  | some registeredPath =>
    apply (sim_findEntryByRegpathAlloc h hfits (some registeredPath)).bind
    rintro found l found' k ⟨hfound, hfits⟩
    have hsome : found.isSome = found'.isSome := by cases hfound <;> rfl
    rw [hsome]
    refine sim_ite (fun _ => hgiveup _ hfits) fun _ => ?_
    apply sim_inKernel_bind (blind_ask · _) hfits
    intro buffer l k hfits
    refine sim_ite (fun _ => hgiveup _ hfits) fun _ => ?_
    apply sim_inKernel_bind (blind_resolvePathAlloc env · (some path) _) hfits
    intro resolvedPath l k hfits
    cases resolvedPath with
    | none => exact hgiveup _ hfits
    | some resolvedPath =>
      apply sim_inKernel_bind (blind_extractInoNoFromPath env · path) hfits
      intro inoRegistered l k hfits
      refine sim_ite (fun _ => hgiveup _ hfits) fun _ => ?_
      apply sim_inKernel_bind (blind_extractInoNoFromPath env · resolvedPath) hfits
      intro inoResolved l k hfits
      refine sim_ite (fun _ => hgiveup _ hfits) fun _ => ?_
      apply sim_inKernel_bind (blind_ask · _) hfits
      intro node l k hfits
      refine sim_ite (fun _ => hgiveup _ hfits) fun _ => ?_
      obtain ⟨heap', hadd, hlists, hevolves⟩ :=
        h.add hfits.heap ⟨⟨registeredPath, inoRegistered⟩, ⟨resolvedPath, inoResolved⟩⟩
      rw [← bind_assoc]
      apply sim_bind_left hadd
      refine ⟨rfl, _, _, hlists, ?_, hevolves⟩
      rw [hfits.kernel]
      rfl

/-- The beginning that the reconfiguration calls share. -/
theorem sim_guarded {arg : UserPtr} {body : L ℤ} {body' : K ℤ} (h : heap.Lists ns registry)
    (hfits : Fits heap registry l k)
    (hbody : ∀ l k, Fits heap registry l k → Sim (fun ret l ret' k => ret = ret' ∧ Ended heap ns l k)
      (SameFault heap registry) body body' l k) :
    Sim (fun ret l ret' k => ret = ret' ∧ Ended heap ns l k) (SameFault heap registry)
      (do
        inKernel spinInstanceLock
        let ret ← inKernel (safetyChecks env reconfChecks arg)
        if ret ≠ 0 then inKernel (tail ret) else body)
      (do
        spinInstanceLock
        let ret ← safetyChecks env reconfChecks arg
        if ret ≠ 0 then tail ret else body') l k := by
  apply sim_inKernel_bind blind_spinInstanceLock hfits
  intro _ l k hfits
  apply sim_inKernel_bind (blind_safetyChecks env · _ arg) hfits
  intro ret l k hfits
  apply sim_ite
  · exact fun _ => sim_tail (h.ended hfits)
  · exact fun _ => hbody l k hfits

/-- And the copy of the path argument. -/
theorem sim_copyPath {user : UserPtr} {body : CString → L ℤ} {body' : CString → K ℤ}
    (h : heap.Lists ns registry) (hfits : Fits heap registry l k)
    (hbody : ∀ path l k, Fits heap registry l k → Sim (fun ret l ret' k => ret = ret' ∧ Ended heap ns l k)
      (SameFault heap registry) (body path) (body' path) l k) :
    Sim (fun ret l ret' k => ret = ret' ∧ Ended heap ns l k) (SameFault heap registry)
      (do
        match ← inKernel (sanitizeUserInputAlloc env user) with
        | none => inKernel (tail (-EINVAL))
        | some buffer => do
          let safePath ← inKernel (readBuffer buffer)
          body safePath)
      (do
        match ← sanitizeUserInputAlloc env user with
        | none => tail (-EINVAL)
        | some buffer => do
          let safePath ← readBuffer buffer
          body' safePath) l k := by
  apply sim_inKernel_bind (blind_sanitizeUserInputAlloc env · user) hfits
  intro out l k hfits
  cases out with
  | none => exact sim_tail (h.ended hfits)
  | some buffer =>
    apply sim_inKernel_bind (blind_readBuffer · buffer) hfits
    exact hbody

/-- `do_reconf_add` on both sides. -/
theorem sim_doReconfAdd (h : heap.Lists ns registry) (hfits : Fits heap registry l k)
    (pathIn passwordIn : UserPtr) :
    Sim (fun ret l ret' k => ret = ret' ∧ Ended heap ns l k) (SameFault heap registry)
      (Linked.doReconfAdd env pathIn passwordIn) (doReconfAdd env pathIn passwordIn) l k := by
  apply sim_guarded h hfits
  intro l k hfits
  apply sim_copyPath h hfits
  intro path l k hfits
  apply (sim_addFile h hfits path).bind
  rintro ret l _ k ⟨rfl, hended⟩
  apply sim_ite
  · exact fun _ => sim_tail hended
  · exact fun _ => sim_tail hended

/-- `do_reconf_rm` on both sides: what is taken out is the entry found. -/
theorem sim_doReconfRm (h : heap.Lists ns registry) (hfits : Fits heap registry l k)
    (pathIn passwordIn : UserPtr) :
    Sim (fun ret l ret' k => ret = ret' ∧ Ended heap ns l k) (SameFault heap registry)
      (Linked.doReconfRm env pathIn passwordIn) (doReconfRm env pathIn passwordIn) l k := by
  apply sim_guarded h hfits
  intro l k hfits
  apply sim_copyPath h hfits
  intro path l k hfits
  apply sim_inKernel_bind (blind_resolvePathAlloc env · (some path) _) hfits
  intro key l k hfits
  apply (sim_findEntryByRegpathAlloc h hfits key).bind
  rintro found l found' k ⟨hfound, hfits⟩
  cases hfound with
  | missed => exact sim_tail (h.ended hfits)
  | @found front back n before behind entry hns hregistry hlength hbefore =>
    subst hns hregistry
    have hfront : n ∉ front := by
      have hnodup := (List.nodup_cons.mp h.isList.nodup).2.of_map
      exact fun hmem => (List.nodup_append.mp hnodup).2.2 n hmem n List.mem_cons_self rfl
    obtain ⟨heap', hdel, hlists, hnodes, hupdates⟩ := h.del hlength hfits.heap
    apply sim_bind_left hdel
    have hput : put (fun core => { core with theInstance := { core.theInstance with
        registry := core.theInstance.registry.erase entry } }) k =
          .ok ⟨⟩ (l.kernel.withRegistry (before ++ behind)) := by
      rw [hfits.kernel]
      change EStateM.Result.ok _ (l.kernel.withRegistry ((before ++ entry :: behind).erase entry)) = _
      rw [List.erase_append_right _ hbefore, List.erase_cons_head]
    apply sim_bind_right hput
    refine sim_tail ⟨front ++ back, _, hlists, rfl, ⟨?_, [.remove n], hupdates, ?_⟩⟩
    · exact hnodes ▸ List.prefix_rfl
    · refine .remove (by simp) ?_
      rw [List.erase_append_right _ hfront, List.erase_cons_head, hnodes]
      exact .done

/-- `do_flush_registry` on both sides. -/
theorem sim_doFlushRegistry (h : heap.Lists ns registry) (hfits : Fits heap registry l k)
    (password : UserPtr) :
    Sim (fun ret l ret' k => ret = ret' ∧ Ended heap ns l k) (SameFault heap registry)
      (Linked.doFlushRegistry env password) (doFlushRegistry env password) l k := by
  apply sim_guarded h hfits
  intro l k hfits
  have hregistry : gets (fun core => core.theInstance.registry) k = .ok registry k := by
    rw [hfits.kernel]
    rfl
  apply sim_bind_left (h.listEmpty_eq hfits.heap)
  apply sim_bind_right hregistry
  apply sim_ite
  · exact fun _ => sim_tail (h.ended hfits)
  · intro _
    have hfirst : nextOf .head l = .ok ((ns.map Place.node).headD .head) l := by
      simp only [nextOf, hfits.heap, h.isList.forward.first]
    have hcount : allocated l = .ok heap.nodes.length l := by simp only [allocated, hfits.heap]
    obtain ⟨heap', hflush, hlists, hnodes, hupdates⟩ :=
      h.flush hfits.heap (Nat.lt_succ_of_le h.length_le)
    apply sim_bind_left hfirst
    apply sim_bind_left (h.nextOf_first hfits.heap)
    apply sim_bind_left hcount
    apply sim_bind_left hflush
    have hput : put (fun core => { core with theInstance := { core.theInstance with
        registry := registry.foldl List.erase core.theInstance.registry } }) k =
          .ok ⟨⟩ (l.kernel.withRegistry []) := by
      rw [hfits.kernel]
      change EStateM.Result.ok _ (l.kernel.withRegistry (registry.foldl List.erase registry)) = _
      rw [foldl_erase_self]
    apply sim_bind_right hput
    refine sim_tail ⟨[], [], hlists, rfl, ⟨?_, _, hupdates, ?_⟩⟩
    · exact hnodes ▸ List.prefix_rfl
    · rw [hnodes]
      exact performs_flush _ ns

/-- The handlers of a call on both sides. -/
theorem sim_handler (h : heap.Lists ns registry) (hfits : Fits heap registry l k) (call : Call) :
    Sim (fun ret l ret' k => ret = ret' ∧ Ended heap ns l k) (SameFault heap registry)
      (Linked.handler env call) (call.handler env) l k := by
  cases call with
  | setState newState =>
    apply (sim_inKernel (blind_doSetState env · newState) hfits).mono _ fun _ _ _ _ h => h
    rintro ret l _ k ⟨rfl, hfits⟩
    exact ⟨rfl, h.ended hfits⟩
  | reconfAdd pathIn passwordIn => exact sim_doReconfAdd h hfits pathIn passwordIn
  | reconfRm pathIn passwordIn => exact sim_doReconfRm h hfits pathIn passwordIn
  | flushRegistry password => exact sim_doFlushRegistry h hfits password

end Handlers

end Refmon
