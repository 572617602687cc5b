import Refmon.RegistrySearches

/-!
# How long a search can take

A hook searches the registry while other processes change it. Each addition that begins meanwhile may
lengthen the search by one entry. Nothing else does: no removal, flush or change of state, and no other
search. So a search that is let go on ends.
-/

namespace Refmon

open LinkedList ListReaders Runs Traces Wp

section Handlers

variable {δ α : Type} (env : Env δ)

/-- The heap is only read. -/
def SameHeap (l l' : Linked) : Prop := l'.heap = l.heap

/-- No node is made. -/
def SameNodes (l l' : Linked) : Prop := l'.heap.nodes.length = l.heap.nodes.length

/-- At most one node is made, and at most one change of the list. -/
def OneNode (l l' : Linked) : Prop :=
  l'.heap.nodes.length ≤ l.heap.nodes.length + 1 ∧ l'.heap.updates.length ≤ l.heap.updates.length + 1

theorem sameHeap_refl (l : Linked) : SameHeap l l := rfl

theorem sameHeap_trans (l₁ l₂ l₃ : Linked) (h : SameHeap l₁ l₂) (h' : SameHeap l₂ l₃) : SameHeap l₁ l₃ :=
  Eq.trans h' h

theorem sameNodes_refl (l : Linked) : SameNodes l l := rfl

theorem sameNodes_trans (l₁ l₂ l₃ : Linked) (h : SameNodes l₁ l₂) (h' : SameNodes l₂ l₃) : SameNodes l₁ l₃ :=
  Eq.trans h' h

theorem SameHeap.sameNodes {l l' : Linked} (h : SameHeap l l') : SameNodes l l' := by
  rw [SameNodes, h]

theorem SameHeap.oneNode {l l' : Linked} (h : SameHeap l l') : OneNode l l' := by
  rw [OneNode, h]
  exact ⟨Nat.le_succ _, Nat.le_succ _⟩

theorem oneNode_of_left {l₁ l₂ l₃ : Linked} (h : SameHeap l₁ l₂) (h' : OneNode l₂ l₃) : OneNode l₁ l₃ := by
  rw [OneNode, h] at h'
  exact h'

theorem oneNode_of_right {l₁ l₂ l₃ : Linked} (h : OneNode l₁ l₂) (h' : SameHeap l₂ l₃) : OneNode l₁ l₃ := by
  rw [OneNode, h']
  exact h

variable {m : L α} {β : Type} {f : α → L β}

theorem sameHeap_bind (hm : Moves SameHeap m) (hf : ∀ a, Moves SameHeap (f a)) : Moves SameHeap (m >>= f) :=
  hm.bind sameHeap_trans hf

/-- Reading first makes no node. -/
theorem sameNodes_bind (hm : Moves SameHeap m) (hf : ∀ a, Moves SameNodes (f a)) : Moves SameNodes (m >>= f) :=
  hm.comp (S := SameNodes) (T := SameNodes) (fun _ _ => SameHeap.sameNodes)
    (fun l₁ l₂ l₃ h => sameNodes_trans l₁ l₂ l₃ h.sameNodes) hf

theorem oneNode_bind (hm : Moves SameHeap m) (hf : ∀ a, Moves OneNode (f a)) : Moves OneNode (m >>= f) :=
  hm.comp (S := OneNode) (T := OneNode) (fun _ _ => SameHeap.oneNode) (fun _ _ _ => oneNode_of_left) hf

theorem sameHeap_pure (a : α) : Moves SameHeap (pure a : L α) := .pure sameHeap_refl a

theorem oneNode_pure (a : α) : Moves OneNode (pure a : L α) := .pure (fun l => (sameHeap_refl l).oneNode) a

/-- Code that does not see the heap. -/
theorem sameHeap_inKernel (m : K α) : Moves SameHeap (inKernel m) := by
  intro l
  rw [wp, inKernel]
  cases m l.kernel with
  | ok a k => exact rfl
  | error fault k => exact rfl

theorem oneNode_inKernel (m : K α) : Moves OneNode (inKernel m) := fun l =>
  wp_mono (sameHeap_inKernel m l) (fun _ _ h => h.oneNode) fun _ _ h => h.oneNode

theorem sameNodes_inKernel (m : K α) : Moves SameNodes (inKernel m) := fun l =>
  wp_mono (sameHeap_inKernel m l) (fun _ _ h => h.sameNodes) fun _ _ h => h.sameNodes

theorem sameHeap_nextOf (place : Place) : Moves SameHeap (nextOf place) := by
  intro l
  rw [wp, nextOf]
  cases l.heap.links.next place with
  | none => exact rfl
  | some next => exact rfl

theorem sameHeap_entryOf (n : ℕ) : Moves SameHeap (entryOf n) := by
  intro l
  rw [wp, entryOf]
  cases l.heap.nodes[n]? with
  | none => exact rfl
  | some entry => exact rfl

theorem sameHeap_listEmpty : Moves SameHeap listEmpty :=
  sameHeap_bind (sameHeap_nextOf _) fun _ => sameHeap_pure _

/-- A change of the list makes no node. -/
theorem sameNodes_relink (update : Update) (links : Option (Links Place)) : Moves SameNodes (relink update links) := by
  intro l
  cases links with
  | none => exact rfl
  | some links => exact rfl

theorem sameNodes_listDel (n : ℕ) : Moves SameNodes (listDel n) := fun l => sameNodes_relink _ _ l

theorem sameHeap_searchNodes (criteria : ℕ) (path : CString) (inoNo : UInt64) (fuel : ℕ) (place : Place) :
    Moves SameHeap (Linked.searchNodes env criteria path inoNo fuel place) := by
  induction fuel generalizing place with
  | zero => exact .throw sameHeap_refl _
  | succ fuel ih =>
    rw [Linked.searchNodes]
    apply sameHeap_bind (sameHeap_nextOf place)
    intro next
    cases next with
    | head => exact sameHeap_pure _
    | node n =>
      apply sameHeap_bind (sameHeap_entryOf n)
      intro currNode
      apply sameHeap_bind (sameHeap_inKernel _)
      intro hit
      exact .ite (sameHeap_pure _) (ih _)

theorem sameHeap_searchEntry (idPath : Option CString) (inoNo : UInt64) (criteria : ℕ) :
    Moves SameHeap (Linked.searchEntry env idPath inoNo criteria) := by
  apply sameHeap_bind sameHeap_listEmpty
  intro empty
  apply Moves.ite (sameHeap_pure _)
  cases idPath with
  | none => exact sameHeap_pure _
  | some path =>
    apply Moves.ite (sameHeap_pure _)
    exact sameHeap_bind (fun _ => rfl) fun _ => sameHeap_searchNodes env criteria path inoNo _ _

theorem sameHeap_findEntryByRegpathAlloc (registeredPath : Option CString) :
    Moves SameHeap (Linked.findEntryByRegpathAlloc env registeredPath) := by
  apply sameHeap_bind (sameHeap_inKernel _)
  intro solved
  cases solved with
  | none => exact sameHeap_pure _
  | some solved => exact sameHeap_searchEntry env _ _ _

/-- A new node is put in once. -/
theorem oneNode_insert (entry : RegistryEntry) (ret : ℤ) :
    Moves OneNode (newNode entry >>= fun n => listAddTail n >>= fun _ => pure ret) := by
  intro l
  have hnode : newNode entry l = .ok l.heap.nodes.length
      { l with heap := { l.heap with nodes := l.heap.nodes ++ [entry] } } := rfl
  rw [wp, bind_of_ok hnode]
  simp only [bind, EStateM.bind, listAddTail]
  cases l.heap.links.addTail .head (.node l.heap.nodes.length) with
  | none => simp [relink, OneNode]
  | some links => simp [relink, OneNode, pure, EStateM.pure]

/-- `_add_file` ends with the one node that it makes. -/
theorem oneNode_addFile (path : CString) : Moves OneNode (Linked.addFile env path) := by
  apply oneNode_bind (sameHeap_inKernel _)
  intro buffer
  apply Moves.ite (oneNode_pure _)
  apply oneNode_bind (sameHeap_inKernel _)
  intro registered
  cases registered with
  | none => exact oneNode_pure _
  | some registeredPath =>
    apply oneNode_bind (sameHeap_findEntryByRegpathAlloc env _)
    intro present
    apply Moves.ite (oneNode_pure _)
    apply oneNode_bind (sameHeap_inKernel _)
    intro buffer
    apply Moves.ite (oneNode_pure _)
    apply oneNode_bind (sameHeap_inKernel _)
    intro resolved
    cases resolved with
    | none => exact oneNode_pure _
    | some resolvedPath =>
      apply oneNode_bind (sameHeap_inKernel _)
      intro inoRegistered
      apply Moves.ite (oneNode_pure _)
      apply oneNode_bind (sameHeap_inKernel _)
      intro inoResolved
      apply Moves.ite (oneNode_pure _)
      apply oneNode_bind (sameHeap_inKernel _)
      intro node
      exact .ite (oneNode_pure _) (oneNode_insert _ _)

theorem oneNode_doReconfAdd (pathIn passwordIn : UserPtr) :
    Moves OneNode (Linked.doReconfAdd env pathIn passwordIn) := by
  apply oneNode_bind (sameHeap_inKernel _)
  intro unlocked
  apply oneNode_bind (sameHeap_inKernel _)
  intro ret
  apply Moves.ite (oneNode_inKernel _)
  apply oneNode_bind (sameHeap_inKernel _)
  intro sanitised
  cases sanitised with
  | none => exact oneNode_inKernel _
  | some buffer =>
    apply oneNode_bind (sameHeap_inKernel _)
    intro safePath
    apply Moves.comp (T := OneNode) (fun _ _ h => h) (fun _ _ _ h h' => oneNode_of_right h h')
      (oneNode_addFile env safePath)
    intro ret
    exact .ite (sameHeap_inKernel _) (sameHeap_inKernel _)

theorem sameNodes_doReconfRm (pathIn passwordIn : UserPtr) :
    Moves SameNodes (Linked.doReconfRm env pathIn passwordIn) := by
  apply sameNodes_bind (sameHeap_inKernel _)
  intro unlocked
  apply sameNodes_bind (sameHeap_inKernel _)
  intro ret
  apply Moves.ite (sameNodes_inKernel _)
  apply sameNodes_bind (sameHeap_inKernel _)
  intro sanitised
  cases sanitised with
  | none => exact sameNodes_inKernel _
  | some buffer =>
    apply sameNodes_bind (sameHeap_inKernel _)
    intro safePath
    apply sameNodes_bind (sameHeap_inKernel _)
    intro key
    apply sameNodes_bind (sameHeap_findEntryByRegpathAlloc env key)
    intro found
    cases found with
    | none => exact sameNodes_inKernel _
    | some found => exact (sameNodes_listDel found).bind sameNodes_trans fun _ => sameNodes_inKernel _

theorem sameNodes_flushNodes (fuel : ℕ) (node nodeAux : Place) :
    Moves SameNodes (Linked.flushNodes fuel node nodeAux) := by
  induction fuel generalizing node nodeAux with
  | zero => exact .throw sameNodes_refl _
  | succ fuel ih =>
    cases node with
    | head => exact .pure sameNodes_refl _
    | node n =>
      apply (sameNodes_listDel n).bind sameNodes_trans
      intro unlinked
      exact sameNodes_bind (sameHeap_nextOf nodeAux) fun next => ih nodeAux next

theorem sameNodes_doFlushRegistry (password : UserPtr) :
    Moves SameNodes (Linked.doFlushRegistry env password) := by
  apply sameNodes_bind (sameHeap_inKernel _)
  intro unlocked
  apply sameNodes_bind (sameHeap_inKernel _)
  intro ret
  apply Moves.ite (sameNodes_inKernel _)
  apply sameNodes_bind sameHeap_listEmpty
  intro empty
  apply Moves.ite (sameNodes_inKernel _)
  apply sameNodes_bind (sameHeap_nextOf _)
  intro node
  apply sameNodes_bind (sameHeap_nextOf _)
  intro nodeAux
  apply sameNodes_bind (m := allocated) fun _ => rfl
  intro nodes
  exact (sameNodes_flushNodes _ _ _).bind sameNodes_trans fun _ => sameNodes_inKernel _

/-- A call that may add an entry. -/
def Call.mayAdd : Call → Bool
  | .reconfAdd _ _ => true
  | _ => false

/-- Only `do_reconf_add` makes a node. -/
theorem moves_handler (call : Call) :
    if call.mayAdd then Moves OneNode (Linked.handler env call) else Moves SameNodes (Linked.handler env call) := by
  cases call with
  | setState newState => exact sameNodes_inKernel _
  | reconfAdd pathIn passwordIn => exact oneNode_doReconfAdd env pathIn passwordIn
  | reconfRm pathIn passwordIn => exact sameNodes_doReconfRm env pathIn passwordIn
  | flushRegistry password => exact sameNodes_doFlushRegistry env password

end Handlers

section Additions

/-- How many of the changes put a node in. -/
def inserts (updates : List Update) : ℕ :=
  updates.countP fun update =>
    match update with
    | .insert _ => true
    | .remove _ => false

/-- The new nodes are those that the changes put in. -/
theorem Performs.inserts {updates : List Update} {fresh fresh' : ℕ} {ns ns' : List ℕ}
    (h : Performs updates fresh ns fresh' ns') : fresh + inserts updates = fresh' := by
  induction h with
  | done => rfl
  | insert _ ih =>
    rw [Refmon.inserts, List.countP_cons_of_pos rfl]
    rw [Refmon.inserts] at ih
    omega
  | remove _ _ ih =>
    rw [Refmon.inserts, List.countP_cons_of_neg Bool.false_ne_true]
    exact ih

variable {ι δ : Type} {ids : ι → PathIdentifier} {sha256 : List UInt8 → Digest} {s : Monitor ι} {search : ι}

/-- A node that is still to be put in is the last change to come, and it has not begun. -/
def Monitor.AddsLast (s : Monitor ι) : Prop :=
  inserts s.todo = 0 ∨ (∃ n, s.todo = [.insert n]) ∧ s.memory.pending = []

theorem inserts_tail {update : Update} {rest : List Update} (h : inserts (update :: rest) = 0) : inserts rest = 0 := by
  rw [inserts, List.countP_cons] at h
  exact Nat.eq_zero_of_add_eq_zero_right h

/-- Changes of which one at most puts a node in: none does, or there is nothing else to do. -/
theorem inserts_of_length_le {updates : List Update} (h : updates.length ≤ 1) :
    inserts updates = 0 ∨ ∃ n, updates = [.insert n] := by
  match updates, h with
  | [], _ => exact .inl rfl
  | [.insert n], _ => exact .inr ⟨n, rfl⟩
  | [.remove n], _ => exact .inl rfl

/-- At most one addition is under way. -/
theorem Monitor.AddsLast.coming_le {places : List Place} (h : s.AddsLast) (hholds : Holds .head places s.memory) :
    coming .head places s.memory + inserts s.todo ≤ 1 := by
  rcases h with hnone | ⟨⟨n, htodo⟩, hpending⟩
  · rw [hnone]
    exact hholds.coming_le
  · have hstores : nextStores s.memory.pending = [] := by rw [hpending]; rfl
    rw [htodo, coming_eq hstores]
    exact Nat.le_refl _

variable [DecidableEq ι]

/-- The happening is the next step of the search. -/
def Happening.turn (ids : ι → PathIdentifier) (search : ι) (happening : Happening ι δ) (s : Monitor ι) : Bool :=
  (happening.action ids s).turn search s.memory

/-- A call begins that may add an entry. -/
def Happening.adds (happening : Happening ι δ) (s : Monitor ι) : Bool := (happening.calls s).any (·.call.mayAdd)

/-- What a call leaves in the heap. -/
theorem linkedStep_nodes (e : Event δ) (l : Linked) :
    if e.call.mayAdd then OneNode l (linkedStep e l) else SameNodes l (linkedStep e l) := by
  have hmoves := moves_handler e.env e.call
  split
  · rename_i hadd
    rw [if_pos hadd] at hmoves
    exact wp_after (hmoves l)
  · rename_i hadd
    rw [if_neg hadd] at hmoves
    exact wp_after (hmoves l)

theorem Monitor.AddsLast.call (h : s.AddsLast) {k : Kernel} {target ns : List ℕ} {fresh : ℕ}
    (howes : s.Owes k target ns fresh) (e : Event δ) :
    (Monitor.step ids (.call e) s).AddsLast ∧
      (Monitor.step ids (.call e) s).nodes.length ≤
        s.nodes.length + ((Happening.call e : Happening ι δ).adds s).toNat := by
  by_cases hidle : s.todo = [] ∧ s.memory.pending = []
  · obtain ⟨target', ns', fresh', howes'⟩ : ∃ target' ns' fresh',
        (Monitor.step ids (.call e) s).Owes (Refmon.step e k) target' ns' fresh' :=
      (howes.call hidle.1 hidle.2 e).2
    have hbefore := howes.todo.inserts
    have hafter := howes'.todo.inserts
    have hcount := howes.count
    have hcount' := howes'.count
    have hmoves := linkedStep_nodes e ⟨s.kernel, ⟨s.memory.links, s.nodes, []⟩⟩
    rw [hidle.1] at hbefore
    rw [Monitor.step, if_pos hidle] at hafter hcount' ⊢
    rw [Happening.adds, Happening.calls, if_pos hidle, List.any_cons, List.any_nil, Bool.or_false]
    change fresh' + inserts (linkedStep e _).heap.updates = (linkedStep e _).heap.nodes.length at hafter
    change s.memory.used.length = fresh' at hcount'
    change fresh + 0 = s.nodes.length at hbefore
    split at hmoves
    · rename_i hadd
      obtain ⟨hnodes, hupdates⟩ := hmoves
      rw [hadd]
      exact ⟨(inserts_of_length_le hupdates).imp_right fun hlast => ⟨hlast, hidle.2⟩, hnodes⟩
    · have hnone : inserts (linkedStep e ⟨s.kernel, ⟨s.memory.links, s.nodes, []⟩⟩).heap.updates = 0 := by
        rw [hmoves] at hafter
        change fresh' + _ = s.nodes.length at hafter
        omega
      exact ⟨.inl hnone, Nat.le_add_right_of_le (Nat.le_of_eq hmoves)⟩
  · rw [Monitor.step, if_neg hidle]
    exact ⟨h, Nat.le_add_right _ _⟩

theorem Monitor.AddsLast.step (h : s.AddsLast) {k : Kernel} {target ns : List ℕ} {fresh : ℕ}
    (howes : s.Owes k target ns fresh) (happening : Happening ι δ) :
    (Monitor.step ids happening s).AddsLast ∧
      (Monitor.step ids happening s).nodes.length ≤ s.nodes.length + (happening.adds s).toNat := by
  cases happening with
  | call e => exact h.call howes e
  | write =>
    simp only [Monitor.step]
    split
    · exact ⟨h, Nat.le_add_right _ _⟩
    · rename_i update rest hpending htodo
      refine ⟨.inl ?_, Nat.le_add_right _ _⟩
      rcases h with hnone | ⟨⟨n, hlast⟩, -⟩
      · rw [htodo] at hnone
        exact inserts_tail hnone
      · rw [htodo] at hlast
        obtain ⟨-, rfl⟩ := List.cons.inj hlast
        rfl
    · rename_i hnotBoth hnotPending
      refine ⟨?_, Nat.le_add_right _ _⟩
      rcases h with hnone | ⟨⟨n, hlast⟩, hpending⟩
      · exact .inl hnone
      · exact absurd hlast (hnotPending _ _ hpending)
  | enter mover =>
    simp only [Monitor.step]
    split
    · exact ⟨h, Nat.le_add_right _ _⟩
    · refine ⟨h.imp_right fun hlast => ⟨hlast.1, ?_⟩, Nat.le_add_right _ _⟩
      simp only [Monitor.act, ListReaders.step]
      split <;> exact hlast.2
  | follow search => exact ⟨h, Nat.le_add_right _ _⟩
  | test search dir => exact ⟨h, Nat.le_add_right _ _⟩

/-- At a load nothing is to be put in. -/
theorem Monitor.Reachable.addsLast (h : s.Reachable δ ids sha256) : s.Sane ∧ s.AddsLast := by
  apply Reach.invariant h
  · intro t ht
    have hreachable : t.Reachable δ ids sha256 := .start ht
    refine ⟨hreachable.sane, ?_⟩
    obtain ⟨l, -, rfl⟩ := ht
    exact .inl rfl
  · intro happening t _ ⟨hsane, hlast⟩
    refine ⟨hsane.step happening, ?_⟩
    obtain ⟨⟨k, target, ns, fresh, howes⟩, -⟩ := hsane
    exact (hlast.step howes happening).1

variable (ids) in
/-- Only an addition makes a node. -/
theorem nodes_le_adds (hsane : s.Sane) (hlast : s.AddsLast) (happenings : List (Happening ι δ)) :
    (run (Monitor.step ids) happenings s).nodes.length ≤
      s.nodes.length + countSteps (Monitor.step ids) Happening.adds happenings s := by
  apply run_le_countSteps (Monitor.step ids) (I := fun t => t.Sane ∧ t.AddsLast) (f := fun t => t.nodes.length)
  · intro happening t ⟨hsane, hlast⟩
    refine ⟨hsane.step happening, ?_⟩
    obtain ⟨⟨k, target, ns, fresh, howes⟩, -⟩ := hsane
    exact (hlast.step howes happening).1
  · intro happening t ⟨hsane, hlast⟩
    obtain ⟨⟨k, target, ns, fresh, howes⟩, -⟩ := hsane
    exact (hlast.step howes happening).2
  · exact ⟨hsane, hlast⟩

/-- Every node was put in, or is still to be put in. -/
theorem Monitor.Sane.total (h : s.Sane) : s.memory.used.length + inserts s.todo = s.nodes.length := by
  obtain ⟨⟨k, target, ns, fresh, howes⟩, -⟩ := h
  rw [howes.count]
  exact howes.todo.inserts

/-- A search is over after two steps for each entry of the registry, two for each addition that begins
meanwhile, and four more, whatever else happens. -/
theorem search_bounded {places : List Place} (h : s.Reachable δ ids sha256)
    (hentering : s.memory.cursor search = .entering)
    (hplaces : Path s.memory.links.next .head places .head) (hhead : .head ∉ places)
    (happenings : List (Happening ι δ)) :
    countSteps (Monitor.step ids) (Happening.turn ids search) happenings s ≤
      2 * (places.length + countSteps (Monitor.step ids) Happening.adds happenings s) + 4 := by
  obtain ⟨hsane, hlast⟩ := h.addsLast
  obtain ⟨nodes, hholds, -⟩ := exists_holds hsane.2
  obtain rfl : nodes = places := hholds.forward.unique hplaces (List.nodup_cons.mp hholds.nodup).1 hhead
  have hevery : EveryStep (ListReaders.step .head) (Allowed .head)
      (trace (Monitor.step ids) (Happening.action ids) happenings s) s.memory := hsane.everyStep happenings
  have hturns := search_length hholds hentering hevery
  rw [← (embeds_memory ids).countSteps (C := Happening.turn ids search) fun _ _ => rfl,
    ← (embeds_memory ids).run] at hturns
  have hsaneEnd : (run (Monitor.step ids) happenings s).Sane :=
    run_preserves _ (fun happening t ht => ht.step happening) hsane
  have hstart := hsane.total
  have hend := hsaneEnd.total
  have hnodes := nodes_le_adds ids hsane hlast happenings
  have hcoming := hlast.coming_le hholds
  omega

/-- A search goes on while the directory is removed and added again, and finds it. -/
def addedMeanwhile : List (Happening Bool Unit) :=
  [.follow true, .call (rootRm rootOnly (lit "/")), .write, .write, .write, .write, .write,
    .call (rootAdd rootOnly (lit "/")), .write, .write, .write, .write, .write, .follow true, .test true 1]

theorem search_bounded_root :
    countSteps (Monitor.step sampleIds) (Happening.turn sampleIds true) addedMeanwhile searching ≤
      2 * ([Place.node 0].length + countSteps (Monitor.step sampleIds) Happening.adds addedMeanwhile searching) + 4 :=
  search_bounded searching_reachable (by decide +kernel) (by decide +kernel) (by decide) addedMeanwhile

end Additions

end Refmon
