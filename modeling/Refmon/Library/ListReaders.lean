import Refmon.Library.LinkedList
import Refmon.Library.Runs

/-!
# Readers without a lock

One writer puts nodes into a circular list and takes nodes out, one update after the other, while any
number of readers follow the links without a lock. An update makes its stores one at a time, and
between two of them a reader may take a step: it follows one link, or it tests the node that it has
reached. A reader that follows a poisoned link crashes.

A node that is put in has not been in the list before, and a node that is taken out is in it.
-/

namespace ListReaders

open LinkedList Runs

variable {ι α : Type*}

/-- How far a reader has come. -/
inductive Cursor (α : Type*)
  | idle
  | entering
  | passed (place : α)
  | reached (node : α)
  | found (node : α)
  | missed
  | crashed (place : α)
deriving DecidableEq

/-- The links, the stores that the writer has yet to make, the nodes that were ever put in, and the
readers. -/
structure State (ι α : Type*) where
  links : Links α
  pending : List (Store α)
  used : List α
  cursor : ι → Cursor α

/-- What may happen next. Whether a reader's test succeeds is decided elsewhere, where other things
happen as well. -/
inductive Action (ι α : Type*)
  | insert (new : α)
  | remove (node : α)
  | store
  | enter (reader : ι)
  | follow (reader : ι)
  | test (reader : ι) (hit : Bool)
  | other

section Step

variable [DecidableEq ι] [DecidableEq α] (head : α)

/-- A reader enters unless the list is empty, and then goes from node to node until it is back at the
head. -/
def Cursor.follow (next : α → Option α) : Cursor α → Cursor α
  | .entering =>
    match next head with
    | none => .crashed head
    | some place => if place = head then .missed else .passed head
  | .passed place =>
    match next place with
    | none => .crashed place
    | some node => if node = head then .missed else .reached node
  | cursor => cursor

/-- A reader is done with the first node that passes its test. -/
def Cursor.test (hit : Bool) : Cursor α → Cursor α
  | .reached node => if hit then .found node else .passed node
  | cursor => cursor

/-- One reader in another position. -/
def State.setCursor (s : State ι α) (reader : ι) (cursor : Cursor α) : State ι α :=
  { s with cursor := Function.update s.cursor reader cursor }

/-- The first pending store has been made. -/
def State.stored (s : State ι α) (first : Store α) (rest : List (Store α)) : State ι α :=
  { s with links := first.apply s.links, pending := rest }

/-- One step. A step that is not possible changes nothing. -/
def step (action : Action ι α) (s : State ι α) : State ι α :=
  match action with
  | .insert new =>
    match s.pending, s.links.prev head with
    | [], some last => { s with pending := addTailStores head new last, used := new :: s.used }
    | _, _ => s
  | .remove node =>
    match s.pending, s.links.prev node, s.links.next node with
    | [], some before, some behind => { s with pending := deleteStores node before behind }
    | _, _, _ => s
  | .store =>
    match s.pending with
    | [] => s
    | first :: rest => s.stored first rest
  | .enter reader =>
    match s.cursor reader with
    | .idle => s.setCursor reader .entering
    | _ => s
  | .follow reader => s.setCursor reader ((s.cursor reader).follow head s.links.next)
  | .test reader hit => s.setCursor reader ((s.cursor reader).test hit)
  | .other => s

end Step

/-- The node lies on the way from the head back to the head. -/
def Listed (next : α → Option α) (head node : α) : Prop :=
  ∃ nodes, Path next head nodes head ∧ head ∉ nodes ∧ node ∈ nodes

/-- The writer puts in new nodes only, and takes out nodes of the list only. -/
def Allowed (head : α) (action : Action ι α) (s : State ι α) : Prop :=
  match action with
  | .insert new => new ∉ head :: s.used
  | .remove node => Listed s.links.next head node
  | _ => True

/-- A list without nodes, which nobody reads or changes yet. -/
structure Start (head : α) (s : State ι α) : Prop where
  isList : IsList s.links head []
  pending : s.pending = []
  idle : ∀ reader, s.cursor reader = .idle

/-- The links that readers follow, as the pending stores change them. -/
def nextStores (stores : List (Store α)) : List (α × Option α) :=
  stores.filterMap fun store =>
    match store with
    | .next place link => some (place, link)
    | .prev _ _ => none

/-- The update that is under way, as far as readers can see it. -/
inductive Phase (next : α → Option α) (head : α) (nodes used : List α) : List (α × Option α) → Prop
  | quiet : Phase next head nodes used []
  | fresh {new : α} : new ∉ head :: nodes → new ∈ used →
      Phase next head nodes used [(new, some head), (nodes.getLastD head, some new)]
  | publish {new : α} : new ∉ head :: nodes → new ∈ used → next new = some head →
      Phase next head nodes used [(nodes.getLastD head, some new)]
  | unlink {front back : List α} {node : α} : nodes = front ++ node :: back →
      Phase next head nodes used [(front.getLastD head, some (back.headD head)), (node, none)]
  | poison {back : List α} {node : α} : node ∉ head :: nodes → Path next node back head → back <:+ nodes →
      Phase next head nodes used [(node, none)]

/-- The nodes of the list at this moment, in the order in which readers meet them. -/
structure Holds (head : α) (nodes : List α) [DecidableEq α] (s : State ι α) : Prop where
  nodup : (head :: nodes).Nodup
  forward : Path s.links.next head nodes head
  phase : Phase s.links.next head nodes s.used (nextStores s.pending)
  completes : ∃ target, IsList (applyAll s.pending s.links) head target
  used : nodes ⊆ s.used

/-- From this place the way back to the head is through these nodes. -/
structure Ahead (head : α) (nodes : List α) (s : State ι α) (place : α) (ahead : List α) : Prop where
  path : Path s.links.next place ahead head
  suffix : ahead <:+ nodes
  placed : place ∈ head :: nodes ∨ (place, none) ∈ nextStores s.pending

/-- The place was taken out, and its link is poisoned. -/
structure Poisoned (s : State ι α) (place : α) : Prop where
  link : s.links.next place = none
  settled : place ∉ (nextStores s.pending).map Prod.fst

section Writer

variable [DecidableEq α] {head place node : α} {nodes nodes' ahead : List α} {s s' : State ι α}

/-- How many nodes that are not in the list yet the pending stores put in. -/
def coming (head : α) (nodes : List α) (s : State ι α) : ℕ :=
  (nextStores s.pending).countP fun store => store.2.any (· ∉ head :: nodes)

theorem coming_eq {stores : List (α × Option α)} (h : nextStores s.pending = stores) :
    coming head nodes s = stores.countP fun store => store.2.any (· ∉ head :: nodes) := by
  rw [coming, h]

/-- What an action of the writer leaves of the ways that lie before the readers. They get longer only by
nodes that are put in. -/
structure Keeps (head : α) (nodes : List α) (s : State ι α) (nodes' : List α) (s' : State ι α) : Prop where
  ahead : ∀ {place : α} {ahead : List α}, Ahead head nodes s place ahead →
    (∃ ahead', Ahead head nodes' s' place ahead' ∧ (∀ node ∈ nodes', node ∈ ahead → node ∈ ahead') ∧
      ahead'.length + coming head nodes' s' + s.used.length ≤
        ahead.length + coming head nodes s + s'.used.length) ∨
      Poisoned s' place
  poisoned : ∀ place ∈ head :: s.used, Poisoned s place → Poisoned s' place
  used : s.used <:+ s'.used

theorem Keeps.refl : Keeps head nodes s nodes s :=
  ⟨fun h => .inl ⟨_, h, fun _ _ hmem => hmem, Nat.le_refl _⟩, fun _ _ h => h, List.suffix_rfl⟩

/-- The nodes of a list are those that its links lead to. -/
theorem Holds.listed_iff (h : Holds head nodes s) : Listed s.links.next head node ↔ node ∈ nodes := by
  have hhead : head ∉ nodes := (List.nodup_cons.mp h.nodup).1
  constructor
  · rintro ⟨others, hpath, hothers, hmem⟩
    rw [h.forward.unique hpath hhead hothers]
    exact hmem
  · intro hmem
    exact ⟨nodes, h.forward, hhead, hmem⟩

/-- The link of a place of the list leads on. -/
theorem Holds.exists_next (h : Holds head nodes s) (hplace : place ∈ head :: nodes) :
    ∃ link, s.links.next place = some link := by
  rcases List.mem_cons.mp hplace with rfl | hmem
  · exact ⟨_, h.forward.first⟩
  · obtain ⟨front, back, rfl⟩ := List.append_of_mem hmem
    exact ⟨_, (path_append.mp h.forward).2.first⟩

/-- So a poisoned place is none of them. -/
theorem Poisoned.ne (hpoisoned : Poisoned s place) (h : Holds head nodes s) (hnode : node ∈ head :: nodes) :
    place ≠ node := by
  rintro rfl
  obtain ⟨link, hlink⟩ := h.exists_next hnode
  cases hpoisoned.link.symm.trans hlink

/-- The way from a place of the list is the rest of the list. -/
theorem Ahead.split (h : Holds head nodes s) (hahead : Ahead head nodes s place ahead)
    (hplace : place ∈ head :: nodes) : ∃ front, head :: nodes = front ++ place :: ahead := by
  have hhead : head ∉ nodes := (List.nodup_cons.mp h.nodup).1
  have hheadAhead : head ∉ ahead := fun hmem => hhead (hahead.suffix.subset hmem)
  rcases List.mem_cons.mp hplace with rfl | hmem
  · exact ⟨[], by rw [h.forward.unique hahead.path hhead hheadAhead, List.nil_append]⟩
  · obtain ⟨front, back, rfl⟩ := List.append_of_mem hmem
    have hback : back = ahead := by
      apply (path_append.mp h.forward).2.unique hahead.path _ hheadAhead
      exact fun hmem => hhead (List.mem_append_right _ (List.mem_cons_of_mem _ hmem))
    exact ⟨head :: front, by rw [hback, List.cons_append]⟩

/-- So its last node is the last of the list. -/
theorem Ahead.getLastD (h : Holds head nodes s) (hahead : Ahead head nodes s place ahead)
    (hplace : place ∈ head :: nodes) : nodes.getLastD head = ahead.getLastD place := by
  obtain ⟨front, hsplit⟩ := hahead.split h hplace
  have hlast := congrArg List.getLast? hsplit
  rw [List.getLast?_append, List.getLast?_cons, List.getLast?_cons, Option.some_or, Option.some_inj] at hlast
  rw [List.getLastD_eq_getLast?, List.getLastD_eq_getLast?, hlast]

/-- And no place occurs on it twice. -/
theorem Ahead.nodup (h : Holds head nodes s) (hahead : Ahead head nodes s place ahead)
    (hplace : place ∈ head :: nodes) : (place :: ahead).Nodup := by
  obtain ⟨front, hsplit⟩ := hahead.split h hplace
  have hnodup := h.nodup
  rw [hsplit] at hnodup
  exact (List.nodup_append.mp hnodup).2.1

section Stored

variable {new : α} {rest : List (Store α)} {link : Option α}

/-- An update goes on to where it was going. -/
theorem Holds.completes_stored {first : Store α} (h : Holds head nodes s)
    (hpending : s.pending = first :: rest) :
    ∃ target, IsList (applyAll (s.stored first rest).pending (s.stored first rest).links) head target := by
  have hcompletes := h.completes
  rw [hpending] at hcompletes
  exact hcompletes

/-- A poisoned link stays poisoned. -/
theorem Poisoned.stored (h : Poisoned s node) (hpending : s.pending = .next place link :: rest) :
    Poisoned (s.stored (.next place link) rest) node := by
  have hsettled := h.settled
  rw [hpending] at hsettled
  obtain ⟨hne, hrest⟩ := not_or.mp (List.mem_cons.not.mp hsettled)
  exact ⟨(Function.update_of_ne hne _ _).trans h.link, hrest⟩

/-- A store to a link that no reader follows changes nothing for the readers. -/
theorem Holds.prevStore (h : Holds head nodes s) (hpending : s.pending = .prev place link :: rest) :
    Holds head nodes (s.stored (.prev place link) rest) ∧
      Keeps head nodes s nodes (s.stored (.prev place link) rest) := by
  have hnext : nextStores s.pending = nextStores rest := by rw [hpending]; rfl
  have hphase := h.phase
  rw [hnext] at hphase
  have hcoming : coming head nodes (s.stored (.prev place link) rest) = coming head nodes s := by
    rw [coming, coming, hnext]
    rfl
  refine ⟨⟨h.nodup, h.forward, hphase, h.completes_stored hpending, h.used⟩, ?_, ?_, List.suffix_rfl⟩
  · intro place ahead hahead
    have hplaced := hahead.placed
    rw [hnext] at hplaced
    exact .inl ⟨ahead, ⟨hahead.path, hahead.suffix, hplaced⟩, fun _ _ hmem => hmem, by rw [hcoming]; exact Nat.le_refl _⟩
  · intro place _ hpoisoned
    have hsettled := hpoisoned.settled
    rw [hnext] at hsettled
    exact ⟨hpoisoned.link, hsettled⟩

/-- A node that is not in the list yet gets its own link. -/
theorem Holds.freshStore (h : Holds head nodes s) (hpending : s.pending = .next new (some head) :: rest)
    (hrest : nextStores rest = [(nodes.getLastD head, some new)]) (hnew : new ∉ head :: nodes)
    (hused : new ∈ s.used) :
    Holds head nodes (s.stored (.next new (some head)) rest) ∧
      Keeps head nodes s nodes (s.stored (.next new (some head)) rest) := by
  have hnext : nextStores s.pending = [(new, some head), (nodes.getLastD head, some new)] := by
    rw [hpending, ← hrest]
    rfl
  have hcoming : coming head nodes (s.stored (.next new (some head)) rest) = coming head nodes s := by
    have hafter : nextStores (s.stored (.next new (some head)) rest).pending = [(nodes.getLastD head, some new)] :=
      hrest
    simp [coming, hnext, hafter]
  refine ⟨⟨h.nodup, (path_update hnew _).mpr h.forward, ?_, h.completes_stored hpending, h.used⟩, ?_,
    fun place _ hpoisoned => hpoisoned.stored hpending, List.suffix_rfl⟩
  · change Phase _ head nodes s.used (nextStores rest)
    rw [hrest]
    exact .publish hnew hused (Function.update_self _ _ _)
  · intro place ahead hahead
    have hplace : place ∈ head :: nodes := by simpa [hnext] using hahead.placed
    refine .inl ⟨ahead, ⟨(path_update ?_ _).mpr hahead.path, hahead.suffix, .inl hplace⟩,
      fun _ _ hmem => hmem, by rw [hcoming]; exact Nat.le_refl _⟩
    intro hmem
    rcases List.mem_cons.mp hmem with rfl | hmem
    · exact hnew hplace
    · exact hnew (List.mem_cons_of_mem _ (hahead.suffix.subset hmem))

/-- The store that puts a node in appends it to what the readers see. -/
theorem Holds.publishStore (h : Holds head nodes s)
    (hpending : s.pending = .next (nodes.getLastD head) (some new) :: rest) (hrest : nextStores rest = [])
    (hnew : new ∉ head :: nodes) (hused : new ∈ s.used) (hlink : s.links.next new = some head) :
    Holds head (nodes ++ [new]) (s.stored (.next (nodes.getLastD head) (some new)) rest) ∧
      Keeps head nodes s (nodes ++ [new]) (s.stored (.next (nodes.getLastD head) (some new)) rest) := by
  have hnext : nextStores s.pending = [(nodes.getLastD head, some new)] := by
    rw [hpending, ← hrest]
    rfl
  have hlast : nodes.getLastD head ∈ head :: nodes := List.getLastD_mem_cons
  have hnewLast : new ≠ nodes.getLastD head := fun heq => hnew (heq ▸ hlast)
  have hpublished : Path (Function.update s.links.next (nodes.getLastD head) (some new)) new [] head :=
    (Function.update_of_ne hnewLast _ _).trans hlink
  have hcoming : coming head nodes s = 1 ∧
      coming head (nodes ++ [new]) (s.stored (.next (nodes.getLastD head) (some new)) rest) = 0 := by
    have hafter : nextStores (s.stored (.next (nodes.getLastD head) (some new)) rest).pending = [] := hrest
    refine ⟨?_, by rw [coming_eq hafter]; rfl⟩
    simp only [coming_eq hnext, List.countP_singleton, Option.any_some, hnew, not_false_eq_true, decide_true, if_true]
  refine ⟨⟨?_, ?_, ?_, h.completes_stored hpending, ?_⟩, ?_,
    fun place _ hpoisoned => hpoisoned.stored hpending, List.suffix_rfl⟩
  · rw [← List.cons_append, List.nodup_append]
    refine ⟨h.nodup, List.nodup_singleton _, fun a ha b hb heq => ?_⟩
    rw [List.mem_singleton.mp hb] at heq
    exact hnew (heq ▸ ha)
  · exact path_append.mpr ⟨h.forward.redirect h.nodup new, hpublished⟩
  · change Phase _ head (nodes ++ [new]) s.used (nextStores rest)
    rw [hrest]
    exact .quiet
  · intro node hmem
    rcases List.mem_append.mp hmem with hmem | hmem
    · exact h.used hmem
    · rw [List.mem_singleton.mp hmem]
      exact hused
  · intro place ahead hahead
    have hplace : place ∈ head :: nodes := by simpa [hnext] using hahead.placed
    refine .inl ⟨ahead ++ [new], ⟨?_, ?_, .inl (List.mem_append_left [new] hplace)⟩,
      fun _ _ hmem => List.mem_append_left _ hmem, ?_⟩
    · rw [hahead.getLastD h hplace] at hpublished ⊢
      exact path_append.mpr ⟨hahead.path.redirect (hahead.nodup h hplace) new, hpublished⟩
    · obtain ⟨front, hfront⟩ := hahead.suffix
      exact ⟨front, by rw [← hfront, List.append_assoc]⟩
    · rw [hcoming.1, hcoming.2, List.length_append, List.length_singleton]
      exact Nat.le_refl _

/-- The way to the head leads past a node that is taken out. -/
theorem Ahead.unlinked {front back : List α} (hahead : Ahead head (front ++ node :: back) s place ahead)
    (h : Holds head (front ++ node :: back) s) (hplace : place ∈ head :: (front ++ node :: back))
    (hlinks : s'.links.next =
      Function.update s.links.next (front.getLastD head) (s.links.next node))
    (hnode : (node, none) ∈ nextStores s'.pending) :
    ∃ ahead', Ahead head (front ++ back) s' place ahead' ∧
      (∀ other ∈ front ++ back, other ∈ ahead → other ∈ ahead') ∧ ahead'.length ≤ ahead.length := by
  obtain ⟨start, hsplit⟩ := hahead.split h hplace
  have hnodup := h.nodup
  rw [← List.cons_append] at hsplit hnodup
  have hgone := (List.nodup_cons.mp (List.nodup_middle.mp hnodup)).1
  have hdisjoint := (List.nodup_append.mp hnodup).2.2
  rcases List.append_eq_append_iff.mp hsplit with ⟨between, hstart, hback⟩ | ⟨between, hfront, hahead'⟩
  · -- the place is the node, or lies behind it
    have hbefore : front.getLastD head ∉ place :: ahead := by
      intro hmem
      apply hdisjoint _ List.getLastD_mem_cons _ _ rfl
      rw [hback]
      exact List.mem_append_right _ hmem
    have hpath : Path s'.links.next place ahead head := by
      rw [hlinks, path_update hbefore]
      exact hahead.path
    cases between with
    | nil =>
      obtain ⟨rfl, rfl⟩ := List.cons.inj hback
      exact ⟨back, ⟨hpath, List.suffix_append _ _, .inr hnode⟩, fun _ _ hmem => hmem, Nat.le_refl _⟩
    | cons _ between =>
      obtain ⟨-, rfl⟩ := List.cons.inj hback
      exact ⟨ahead, ⟨hpath, ⟨front ++ (between ++ [place]), by simp⟩, .inl (by simp)⟩,
        fun _ _ hmem => hmem, Nat.le_refl _⟩
  · cases between with
    | nil =>
      obtain ⟨rfl, rfl⟩ := List.cons.inj hahead'
      have hbefore : front.getLastD head ∉ place :: ahead := fun hmem =>
        hdisjoint _ List.getLastD_mem_cons _ hmem rfl
      refine ⟨ahead, ⟨?_, List.suffix_append _ _, .inr hnode⟩, fun _ _ hmem => hmem, Nat.le_refl _⟩
      rw [hlinks, path_update hbefore]
      exact hahead.path
    | cons _ between =>
      -- the place lies before the node
      obtain ⟨rfl, rfl⟩ := List.cons.inj hahead'
      have hlast : front.getLastD head = between.getLastD place := by
        have hlast := congrArg List.getLast? hfront
        rw [List.getLast?_append, List.getLast?_cons, List.getLast?_cons, Option.some_or,
          Option.some_inj] at hlast
        rw [List.getLastD_eq_getLast?, List.getLastD_eq_getLast?, hlast]
      refine ⟨between ++ back, ⟨?_, ?_, ?_⟩, ?_, by simp⟩
      · rw [hlinks, hlast]
        exact hahead.path.skip (hahead.nodup h hplace)
      · cases start with
        | nil =>
          obtain ⟨-, rfl⟩ := List.cons.inj hfront
          exact List.suffix_rfl
        | cons _ start =>
          obtain ⟨-, rfl⟩ := List.cons.inj hfront
          exact ⟨start ++ [place], by simp⟩
      · left
        rw [← List.cons_append, hfront]
        simp
      · intro other hother hmem
        rcases List.mem_append.mp hmem with hmem | hmem
        · exact List.mem_append_left _ hmem
        · rcases List.mem_cons.mp hmem with rfl | hmem
          · exact absurd (List.mem_cons_of_mem head hother) hgone
          · exact List.mem_append_right _ hmem

/-- The store that takes a node out takes it out of what the readers see. -/
theorem Holds.unlinkStore {front back : List α} (h : Holds head (front ++ node :: back) s)
    (hpending : s.pending = .next (front.getLastD head) (some (back.headD head)) :: rest)
    (hrest : nextStores rest = [(node, none)]) :
    Holds head (front ++ back) (s.stored (.next (front.getLastD head) (some (back.headD head))) rest) ∧
      Keeps head (front ++ node :: back) s (front ++ back)
        (s.stored (.next (front.getLastD head) (some (back.headD head))) rest) := by
  have hnext : nextStores s.pending = [(front.getLastD head, some (back.headD head)), (node, none)] := by
    rw [hpending, ← hrest]
    rfl
  have hback := (path_append.mp h.forward).2
  have hnode : s.links.next node = some (back.headD head) := hback.first
  have hnodup := h.nodup
  rw [← List.cons_append] at hnodup
  have hgone := (List.nodup_cons.mp (List.nodup_middle.mp hnodup)).1
  obtain ⟨hfront, hnodeBack, hdisjoint⟩ := List.nodup_append.mp hnodup
  have hbefore : front.getLastD head ∉ node :: back := fun hmem =>
    hdisjoint _ List.getLastD_mem_cons _ hmem rfl
  refine ⟨⟨?_, ?_, ?_, h.completes_stored hpending, ?_⟩, ?_,
    fun place _ hpoisoned => hpoisoned.stored hpending, List.suffix_rfl⟩
  · exact (List.nodup_cons.mp (List.nodup_middle.mp hnodup)).2
  · have hskip := h.forward.skip h.nodup
    rw [hnode] at hskip
    exact hskip
  · change Phase _ head (front ++ back) s.used (nextStores rest)
    rw [hrest]
    exact .poison hgone ((path_update hbefore _).mpr hback) (List.suffix_append _ _)
  · intro other hmem
    apply h.used
    rcases List.mem_append.mp hmem with hmem | hmem
    · exact List.mem_append_left _ hmem
    · exact List.mem_append_right _ (List.mem_cons_of_mem _ hmem)
  · intro place ahead hahead
    have hplace : place ∈ head :: (front ++ node :: back) := by
      rcases hahead.placed with hplace | hplace
      · exact hplace
      · obtain rfl : place = node := by simpa [hnext] using hplace
        simp
    have hafter : nextStores (s.stored (.next (front.getLastD head) (some (back.headD head))) rest).pending =
        [(node, none)] := hrest
    obtain ⟨ahead', hahead', hmem, hshorter⟩ : ∃ ahead', Ahead head (front ++ back)
        (s.stored (.next (front.getLastD head) (some (back.headD head))) rest) place ahead' ∧
        (∀ other ∈ front ++ back, other ∈ ahead → other ∈ ahead') ∧ ahead'.length ≤ ahead.length :=
      hahead.unlinked h hplace (hnode ▸ rfl) (by rw [hafter]; exact List.mem_singleton_self _)
    refine .inl ⟨ahead', hahead', hmem, ?_⟩
    have hcoming : coming head (front ++ back)
        (s.stored (.next (front.getLastD head) (some (back.headD head))) rest) = 0 := by
      rw [coming_eq hafter]
      rfl
    rw [hcoming]
    exact Nat.add_le_add (Nat.le_trans hshorter (Nat.le_add_right _ _)) (Nat.le_refl _)

/-- The link of a node that was taken out is poisoned. -/
theorem Holds.poisonStore (h : Holds head nodes s) (hpending : s.pending = .next node none :: rest)
    (hrest : nextStores rest = []) (hnode : node ∉ head :: nodes) :
    Holds head nodes (s.stored (.next node none) rest) ∧
      Keeps head nodes s nodes (s.stored (.next node none) rest) := by
  have hnext : nextStores s.pending = [(node, none)] := by
    rw [hpending, ← hrest]
    rfl
  have hcoming : coming head nodes (s.stored (.next node none) rest) = 0 := by
    have hafter : nextStores (s.stored (.next node none) rest).pending = [] := hrest
    rw [coming_eq hafter]
    rfl
  refine ⟨⟨h.nodup, (path_update hnode _).mpr h.forward, ?_, h.completes_stored hpending, h.used⟩, ?_,
    fun place _ hpoisoned => hpoisoned.stored hpending, List.suffix_rfl⟩
  · change Phase _ head nodes s.used (nextStores rest)
    rw [hrest]
    exact .quiet
  · intro place ahead hahead
    by_cases hplace : place = node
    · rw [hplace]
      refine .inr ⟨Function.update_self _ _ _, ?_⟩
      change node ∉ (nextStores rest).map Prod.fst
      simp [hrest]
    · have hlisted : place ∈ head :: nodes := by simpa [hnext, hplace] using hahead.placed
      refine .inl ⟨ahead, ⟨(path_update ?_ _).mpr hahead.path, hahead.suffix, .inl hlisted⟩,
        fun _ _ hmem => hmem, by rw [hcoming]; exact Nat.add_le_add (Nat.le_add_right _ _) (Nat.le_refl _)⟩
      intro hmem
      rcases List.mem_cons.mp hmem with heq | hmem
      · exact hplace heq.symm
      · exact hnode (List.mem_cons_of_mem _ (hahead.suffix.subset hmem))

end Stored

section Updates

variable {last behind before : α} {new : α}

/-- Between two updates the list is complete in both directions. -/
theorem Holds.isList (h : Holds head nodes s) (hpending : s.pending = []) : IsList s.links head nodes := by
  obtain ⟨target, htarget⟩ := h.completes
  rw [hpending] at htarget
  have hnodes : nodes = target := h.forward.unique htarget.forward (List.nodup_cons.mp h.nodup).1
    (List.nodup_cons.mp htarget.nodup).1
  rw [hnodes]
  exact htarget

/-- An addition begins. -/
theorem Holds.insert (h : Holds head nodes s) (hpending : s.pending = []) (hlast : s.links.prev head = some last)
    (hnew : new ∉ head :: s.used) :
    Holds head nodes { s with pending := addTailStores head new last, used := new :: s.used } ∧
      Keeps head nodes s nodes { s with pending := addTailStores head new last, used := new :: s.used } := by
  have hlist := h.isList hpending
  obtain rfl : nodes.getLastD head = last := Option.some.inj (hlist.prev_head.symm.trans hlast)
  have hfresh : new ∉ head :: nodes := fun hmem => hnew <| by
    rcases List.mem_cons.mp hmem with rfl | hmem
    · exact List.mem_cons_self
    · exact List.mem_cons_of_mem _ (h.used hmem)
  obtain ⟨after, hafter, htarget⟩ := hlist.addTail hfresh
  rw [Links.addTail, hlast, Option.map_some, Option.some_inj] at hafter
  rw [← hafter] at htarget
  refine ⟨⟨h.nodup, h.forward, .fresh hfresh List.mem_cons_self, ⟨_, htarget⟩,
    fun _ hmem => List.mem_cons_of_mem _ (h.used hmem)⟩, ?_, ?_, List.suffix_cons _ _⟩
  · intro place ahead hahead
    have hplaced : place ∈ head :: nodes := by simpa [hpending, nextStores] using hahead.placed
    refine .inl ⟨ahead, ⟨hahead.path, hahead.suffix, .inl hplaced⟩, fun _ _ hmem => hmem, ?_⟩
    have hcoming : coming head nodes { s with
        pending := addTailStores head new (nodes.getLastD head), used := new :: s.used } = 1 := by
      have hhead : ¬ head ∉ head :: nodes := not_not.mpr List.mem_cons_self
      have hnext : nextStores (addTailStores head new (nodes.getLastD head)) =
          [(new, some head), (nodes.getLastD head, some new)] := rfl
      simp only [coming, hnext, List.countP_cons, List.countP_nil, Option.any_some, hhead, hfresh, not_false_eq_true,
        decide_true, decide_false, if_true, Bool.false_eq_true, if_false, Nat.add_zero]
    rw [hcoming, List.length_cons]
    omega
  · intro place hplace hpoisoned
    refine ⟨hpoisoned.link, ?_⟩
    change place ∉ [new, nodes.getLastD head]
    have hne : place ≠ new := fun heq => hnew (heq ▸ hplace)
    simp only [List.mem_cons, List.not_mem_nil, or_false, not_or]
    exact ⟨hne, hpoisoned.ne h List.getLastD_mem_cons⟩

/-- A removal begins. -/
theorem Holds.delete (h : Holds head nodes s) (hpending : s.pending = []) (hnode : node ∈ nodes)
    (hbefore : s.links.prev node = some before) (hbehind : s.links.next node = some behind) :
    Holds head nodes { s with pending := deleteStores node before behind } ∧
      Keeps head nodes s nodes { s with pending := deleteStores node before behind } := by
  have hlist := h.isList hpending
  obtain ⟨front, back, rfl⟩ := List.append_of_mem hnode
  obtain ⟨hprev, hnext⟩ := hlist.neighbours
  obtain rfl : front.getLastD head = before := Option.some.inj (hprev.symm.trans hbefore)
  obtain rfl : back.headD head = behind := Option.some.inj (hnext.symm.trans hbehind)
  obtain ⟨after, hafter, htarget, -⟩ := hlist.delete
  simp only [Links.delete, hbefore, hbehind, Option.some_inj] at hafter
  rw [← hafter] at htarget
  refine ⟨⟨h.nodup, h.forward, .unlink rfl, ⟨_, htarget⟩, h.used⟩, ?_, ?_, List.suffix_rfl⟩
  · intro place ahead hahead
    have hplaced : place ∈ head :: (front ++ node :: back) := by
      simpa [hpending, nextStores] using hahead.placed
    refine .inl ⟨ahead, ⟨hahead.path, hahead.suffix, .inl hplaced⟩, fun _ _ hmem => hmem, ?_⟩
    have hcoming : coming head (front ++ node :: back)
        { s with pending := deleteStores node (front.getLastD head) (back.headD head) } = 0 := by
      have hbehind : ¬ back.headD head ∉ head :: (front ++ node :: back) := by
        cases back <;> simp
      have hnext : nextStores (deleteStores node (front.getLastD head) (back.headD head)) =
          [(front.getLastD head, some (back.headD head)), (node, none)] := rfl
      simp only [coming, hnext, List.countP_cons, List.countP_nil, Option.any_some, Option.any_none, hbehind,
        decide_false, Bool.false_eq_true, if_false, Nat.add_zero]
    rw [hcoming]
    exact Nat.add_le_add (Nat.le_add_right _ _) (Nat.le_refl _)
  · intro place _ hpoisoned
    refine ⟨hpoisoned.link, ?_⟩
    change place ∉ [front.getLastD head, node]
    simp only [List.mem_cons, List.not_mem_nil, or_false, not_or]
    constructor
    · apply hpoisoned.ne h
      rw [← List.cons_append]
      exact List.mem_append_left _ List.getLastD_mem_cons
    · exact hpoisoned.ne h (List.mem_cons_of_mem _ hnode)

/-- The readers see a new node at the tail, or one node less, or no change. -/
inductive Seen (head : α) (nodes : List α) : List α → Prop
  | same : Seen head nodes nodes
  | appended {new : α} : new ∉ head :: nodes → Seen head nodes (nodes ++ [new])
  | removed {front back : List α} {node : α} : nodes = front ++ node :: back → Seen head nodes (front ++ back)

/-- A store changes what the readers see at most once in an update. -/
theorem Holds.store {first : Store α} {rest : List (Store α)} (h : Holds head nodes s)
    (hpending : s.pending = first :: rest) :
    ∃ nodes', Holds head nodes' (s.stored first rest) ∧ Keeps head nodes s nodes' (s.stored first rest) ∧
      Seen head nodes nodes' := by
  cases first with
  | prev place link =>
    obtain ⟨hholds, hkeeps⟩ := h.prevStore hpending
    exact ⟨nodes, hholds, hkeeps, .same⟩
  | next place link =>
    have hphase := h.phase
    rw [hpending] at hphase
    change Phase _ head nodes s.used ((place, link) :: nextStores rest) at hphase
    generalize hrest : nextStores rest = stores at hphase
    cases hphase with
    | fresh hnew hused =>
      obtain ⟨hholds, hkeeps⟩ := h.freshStore hpending hrest hnew hused
      exact ⟨nodes, hholds, hkeeps, .same⟩
    | publish hnew hused hlink =>
      obtain ⟨hholds, hkeeps⟩ := h.publishStore hpending hrest hnew hused hlink
      exact ⟨_, hholds, hkeeps, .appended hnew⟩
    | unlink hsplit =>
      subst hsplit
      obtain ⟨hholds, hkeeps⟩ := h.unlinkStore hpending hrest
      exact ⟨_, hholds, hkeeps, .removed rfl⟩
    | poison hgone =>
      obtain ⟨hholds, hkeeps⟩ := h.poisonStore hpending hrest hgone
      exact ⟨nodes, hholds, hkeeps, .same⟩

end Updates

end Writer

end ListReaders
