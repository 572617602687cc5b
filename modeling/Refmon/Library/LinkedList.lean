import Mathlib.Data.List.Induction
import Mathlib.Data.List.Nodup
import Mathlib.Logic.Function.Basic
import Mathlib.Tactic.Common

/-!
# Circular lists with two links

Each node has a link to the next one and a link to the one before it, and a head, which is no node,
closes the circle. A node is put in at the tail and taken out with four stores each. The links of a
node that was taken out are poisoned: they lead nowhere.
-/

namespace LinkedList

variable {α : Type*}

/-- The links of all places. There is nothing behind a poisoned link. -/
structure Links (α : Type*) where
  next : α → Option α
  prev : α → Option α

/-- One store to a link. -/
inductive Store (α : Type*)
  | next (place : α) (link : Option α)
  | prev (place : α) (link : Option α)
deriving DecidableEq

/-- The links lead from one place through these nodes, in order, to another place. -/
def Path (link : α → Option α) : α → List α → α → Prop
  | start, [], stop => link start = some stop
  | start, node :: rest, stop => link start = some node ∧ Path link node rest stop

instance decidablePath [DecidableEq α] (link : α → Option α) :
    ∀ start nodes stop, Decidable (Path link start nodes stop)
  | start, [], stop => inferInstanceAs (Decidable (link start = some stop))
  | start, node :: rest, stop =>
    haveI := decidablePath link node rest stop
    inferInstanceAs (Decidable (link start = some node ∧ Path link node rest stop))

/-- The nodes, in order, are those of the list with this head. -/
structure IsList (links : Links α) (head : α) (nodes : List α) : Prop where
  nodup : (head :: nodes).Nodup
  forward : Path links.next head nodes head
  backward : Path links.prev head nodes.reverse head

section Path

variable {link : α → Option α} {start stop node : α} {nodes rest : List α}

/-- A path through a node is a path to it and a path from it. -/
theorem path_append : Path link start (nodes ++ node :: rest) stop ↔
    Path link start nodes node ∧ Path link node rest stop := by
  induction nodes generalizing start with
  | nil => rfl
  | cons first nodes ih => rw [List.cons_append, Path, Path, ih, and_assoc]

/-- The first link of a path leads to its first node. -/
theorem Path.first (h : Path link start nodes stop) : link start = some (nodes.headD stop) := by
  cases nodes with
  | nil => exact h
  | cons first nodes => exact h.1

/-- The last link of a path leads to its end. -/
theorem Path.last (h : Path link start nodes stop) : link (nodes.getLastD start) = some stop := by
  induction nodes generalizing start with
  | nil => exact h
  | cons first nodes ih =>
    rw [List.getLastD_cons]
    exact ih h.2

/-- Two paths to the same place, neither of which passes it before, are the same. -/
theorem Path.unique (h : Path link start nodes stop) (h' : Path link start rest stop)
    (hstop : stop ∉ nodes) (hstop' : stop ∉ rest) : nodes = rest := by
  induction nodes generalizing start rest with
  | nil =>
    cases rest with
    | nil => rfl
    | cons first rest =>
      have heq : stop = first := Option.some.inj (Eq.trans (Eq.symm h) h'.1)
      exact absurd (heq ▸ List.mem_cons_self) hstop'
  | cons first nodes ih =>
    cases rest with
    | nil =>
      have heq : first = stop := Option.some.inj (h.1.symm.trans h')
      exact absurd (heq ▸ List.mem_cons_self) hstop
    | cons other rest =>
      have heq : first = other := Option.some.inj (h.1.symm.trans h'.1)
      rw [heq] at h ⊢
      rw [ih h.2 h'.2 (fun hmem => hstop (List.mem_cons_of_mem _ hmem))
        fun hmem => hstop' (List.mem_cons_of_mem _ hmem)]

variable [DecidableEq α]

/-- A store to a place that a path does not leave from does not change it. -/
theorem path_update {place : α} (h : place ∉ start :: nodes) (target : Option α) :
    Path (Function.update link place target) start nodes stop ↔ Path link start nodes stop := by
  induction nodes generalizing start with
  | nil =>
    have hne : start ≠ place := fun heq => h (heq ▸ List.mem_cons_self)
    rw [Path, Path, Function.update_of_ne hne]
  | cons first nodes ih =>
    have hne : start ≠ place := fun heq => h (heq ▸ List.mem_cons_self)
    rw [Path, Path, Function.update_of_ne hne, ih fun hmem => h (List.mem_cons_of_mem _ hmem)]

/-- With the first link of a path, another place is the start of the path's rest. -/
theorem Path.restart (h : Path link node nodes stop) (hstart : start ∉ nodes) :
    Path (Function.update link start (link node)) start nodes stop := by
  cases nodes with
  | nil =>
    rw [Path, Function.update_self]
    exact h
  | cons first nodes =>
    rw [Path, Function.update_self, path_update hstart]
    exact h

/-- With a store to its last link, a path leads to another place. -/
theorem Path.redirect (h : Path link start nodes stop) (hnodup : (start :: nodes).Nodup) (target : α) :
    Path (Function.update link (nodes.getLastD start) (some target)) start nodes target := by
  induction nodes generalizing start with
  | nil =>
    rw [List.getLastD_nil, Path, Function.update_self]
  | cons first nodes ih =>
    obtain ⟨hstart, hrest⟩ := List.nodup_cons.mp hnodup
    have hlast : start ≠ nodes.getLastD first := by
      intro heq
      apply hstart
      rw [heq]
      exact List.getLastD_mem_cons
    rw [List.getLastD_cons, Path, Function.update_of_ne hlast]
    exact ⟨h.1, ih h.2 hrest⟩

/-- With the link of a node stored in the place before it, a path goes past the node. -/
theorem Path.skip (h : Path link start (nodes ++ node :: rest) stop)
    (hnodup : (start :: (nodes ++ node :: rest)).Nodup) :
    Path (Function.update link (nodes.getLastD start) (link node)) start (nodes ++ rest) stop := by
  obtain ⟨hto, hfrom⟩ := path_append.mp h
  cases nodes using List.reverseRecOn with
  | nil =>
    have hstart : start ∉ rest := fun hmem =>
      (List.nodup_cons.mp hnodup).1 (List.mem_cons_of_mem _ hmem)
    exact hfrom.restart hstart
  | append_singleton front last =>
    rw [List.append_assoc, List.singleton_append, ← List.cons_append] at hnodup
    have hfront : last ∉ start :: front := fun hmem =>
      (List.nodup_append.mp hnodup).2.2 last hmem last List.mem_cons_self rfl
    have hrest : last ∉ rest := by
      have htail := (List.nodup_append.mp hnodup).2.1
      exact fun hmem => (List.nodup_cons.mp htail).1 (List.mem_cons_of_mem _ hmem)
    rw [List.getLastD_concat, List.append_assoc, List.singleton_append, path_append, path_update hfront]
    exact ⟨(path_append.mp hto).1, hfrom.restart hrest⟩

end Path

section Lists

variable {links : Links α} {head node : α} {nodes before behind : List α}

/-- The list is empty exactly if its head leads to itself. -/
theorem IsList.next_head_iff (h : IsList links head nodes) : links.next head = some head ↔ nodes = [] := by
  rw [h.forward.first, Option.some.injEq]
  cases nodes with
  | nil => simp
  | cons first nodes =>
    have hne : first ≠ head := fun heq =>
      (List.nodup_cons.mp h.nodup).1 (heq ▸ List.mem_cons_self)
    simpa using hne

/-- The head has the last node before it, or itself. -/
theorem IsList.prev_head (h : IsList links head nodes) : links.prev head = some (nodes.getLastD head) := by
  rw [h.backward.first]
  cases nodes using List.reverseRecOn with
  | nil => rfl
  | append_singleton nodes last => simp

/-- The links of a node lead to the places beside it. -/
theorem IsList.neighbours (h : IsList links head (before ++ node :: behind)) :
    links.prev node = some (before.getLastD head) ∧ links.next node = some (behind.headD head) := by
  have hback := h.backward
  rw [List.reverse_append, List.reverse_cons, List.append_assoc, List.singleton_append, path_append] at hback
  constructor
  · rw [hback.2.first]
    cases before using List.reverseRecOn with
    | nil => rfl
    | append_singleton before last => simp
  · exact (path_append.mp h.forward).2.first

end Lists

section Stores

variable [DecidableEq α]

/-- The links after a store. -/
def Store.apply : Store α → Links α → Links α
  | .next place link, links => { links with next := Function.update links.next place link }
  | .prev place link, links => { links with prev := Function.update links.prev place link }

/-- The links after stores, in order. -/
def applyAll (stores : List (Store α)) (links : Links α) : Links α :=
  stores.foldl (fun links store => store.apply links) links

/-- The stores of `INIT_LIST_HEAD`. -/
def initStores (head : α) : List (Store α) := [.next head (some head), .prev head (some head)]

/-- The stores of `list_add_tail`, whose head has the last place before it. -/
def addTailStores (head new last : α) : List (Store α) :=
  [.prev head (some new), .next new (some head), .prev new (some last), .next last (some new)]

/-- The stores of `list_del`, whose node lies between these two places. -/
def deleteStores (node before behind : α) : List (Store α) :=
  [.prev behind (some before), .next before (some behind), .next node none, .prev node none]

/-- `list_add_tail`, unless it follows a poisoned link. -/
def Links.addTail (links : Links α) (head new : α) : Option (Links α) :=
  (links.prev head).map fun last => applyAll (addTailStores head new last) links

/-- `list_del`, unless it follows a poisoned link. -/
def Links.delete (links : Links α) (node : α) : Option (Links α) :=
  match links.prev node, links.next node with
  | some before, some behind => some (applyAll (deleteStores node before behind) links)
  | _, _ => none

variable {links : Links α} {head new node : α} {nodes before behind : List α}

/-- Whatever the links were, a head that has been initialised is that of a list without nodes. -/
theorem isList_init (links : Links α) (head : α) : IsList (applyAll (initStores head) links) head [] :=
  ⟨List.nodup_singleton _, Function.update_self _ _ _, Function.update_self _ _ _⟩

/-- Putting a node in puts it at the tail. -/
theorem IsList.addTail (h : IsList links head nodes) (hnew : new ∉ head :: nodes) :
    ∃ after, links.addTail head new = some after ∧ IsList after head (nodes ++ [new]) := by
  refine ⟨_, by rw [Links.addTail, h.prev_head, Option.map_some], ?_⟩
  have hlast : nodes.getLastD head ∈ head :: nodes := List.getLastD_mem_cons
  have hnehead : new ≠ head := fun heq => hnew (heq ▸ List.mem_cons_self)
  have hnelast : new ≠ nodes.getLastD head := fun heq => hnew (heq ▸ hlast)
  have hheadNodes : head ∉ nodes := (List.nodup_cons.mp h.nodup).1
  refine ⟨?_, ?_, ?_⟩
  · rw [← List.cons_append, List.nodup_append]
    refine ⟨h.nodup, List.nodup_singleton _, fun a ha b hb heq => ?_⟩
    rw [List.mem_singleton.mp hb] at heq
    exact hnew (heq ▸ ha)
  · change Path (Function.update (Function.update links.next new (some head)) (nodes.getLastD head) (some new))
      head (nodes ++ [new]) head
    rw [path_append]
    constructor
    · exact ((path_update hnew _).mpr h.forward).redirect h.nodup new
    · rw [Path, Function.update_of_ne hnelast, Function.update_self]
  · change Path (Function.update (Function.update links.prev head (some new)) new
      (some (nodes.getLastD head))) head (nodes ++ [new]).reverse head
    rw [List.reverse_append, List.reverse_singleton, List.singleton_append, Path,
      Function.update_of_ne hnehead.symm, Function.update_self, Function.update_comm hnehead.symm, path_update]
    · rw [← h.prev_head]
      refine ⟨rfl, h.backward.restart fun hmem => ?_⟩
      exact hnew (List.mem_cons_of_mem _ (List.mem_reverse.mp hmem))
    · intro hmem
      rcases List.mem_cons.mp hmem with heq | hmem
      · exact hnehead heq.symm
      · exact hheadNodes (List.mem_reverse.mp hmem)

/-- Taking a node out takes it out of the list, and poisons its links. -/
theorem IsList.delete (h : IsList links head (before ++ node :: behind)) :
    ∃ after, links.delete node = some after ∧ IsList after head (before ++ behind) ∧
      after.next node = none := by
  obtain ⟨hprev, hnext⟩ := h.neighbours
  refine ⟨_, by rw [Links.delete, hprev, hnext], ?_, ?_⟩
  on_goal 2 => exact Function.update_self _ _ _
  have hnodup := h.nodup
  have hnode : node ∉ head :: (before ++ behind) := by
    rw [← List.cons_append, List.nodup_middle, List.nodup_cons] at hnodup
    rw [← List.cons_append]
    exact hnodup.1
  have hnodeReverse : node ∉ head :: (behind.reverse ++ before.reverse) := by
    intro hmem
    rw [← List.reverse_append, List.mem_cons, List.mem_reverse] at hmem
    exact hnode (List.mem_cons.mpr hmem)
  have hback := h.backward
  have hbackNodup : (head :: (before ++ node :: behind).reverse).Nodup := by
    rw [List.nodup_cons, List.mem_reverse, List.nodup_reverse]
    exact List.nodup_cons.mp hnodup
  refine ⟨?_, ?_, ?_⟩
  · rw [← List.cons_append, List.nodup_middle, List.nodup_cons] at hnodup
    exact hnodup.2
  · change Path (Function.update (Function.update links.next (before.getLastD head)
      (some (behind.headD head))) node none) head (before ++ behind) head
    rw [path_update hnode, ← hnext]
    exact h.forward.skip hnodup
  · change Path (Function.update (Function.update links.prev (behind.headD head)
      (some (before.getLastD head))) node none) head (before ++ behind).reverse head
    rw [List.reverse_append, List.reverse_cons, List.append_assoc, List.singleton_append] at hback hbackNodup
    have hlast : behind.headD head = behind.reverse.getLastD head := by
      cases behind <;> simp
    rw [List.reverse_append, path_update hnodeReverse, ← hprev, hlast]
    exact hback.skip hbackNodup

end Stores

end LinkedList
