import Refmon.Calls
import Refmon.Library.LinkedList
import Refmon.Library.Simulation
import Refmon.UnseenRegistry

/-!
# The registry as linked nodes

The registry is a circular list through the field `registry_noderef` of its entries, whose head is in
`the_instance`. Here the functions that walk it or change it are written once more, on a heap of
linked nodes, from `INIT_LIST_HEAD` to `list_del`; all other code of the module runs as before, in a
kernel whose registry it does not see. The nodes are never freed, and are numbered in the order of
their allocation. A walk that is longer than there are nodes goes round without end.
-/

namespace Refmon

open LinkedList Runs Wp

/-- A place with list links: `the_instance.registry`, or the `registry_noderef` of a node. -/
inductive Place
  | head
  | node (n : ℕ)
deriving DecidableEq

/-- A change of the list, as the writer makes it. -/
inductive Update
  | insert (n : ℕ)
  | remove (n : ℕ)
deriving DecidableEq

/-- The links, the entries of the nodes, and the record of the changes made to the list. -/
structure Heap where
  links : Links Place
  nodes : List RegistryEntry
  updates : List Update

/-- The module with its registry in a heap. -/
structure Linked where
  kernel : Kernel
  heap : Heap

/-- The ways code of the module can end without returning. -/
inductive LinkFault
  | module (fault : Fault)
  /-- a poisoned link is followed -/
  | poison
  /-- a link leads to memory that holds no entry -/
  | wild
  /-- a walk never comes back to the head -/
  | endless
deriving DecidableEq

/-- Code of the module that sees the heap. -/
abbrev L := EStateM LinkFault Linked

section Heap

/-- Code that does not see the heap. -/
def inKernel {α : Type} (m : K α) : L α := fun l =>
  match m l.kernel with
  | .ok a k => .ok a { l with kernel := k }
  | .error fault k => .error (.module fault) { l with kernel := k }

/-- Read the link to the next place. -/
def nextOf (place : Place) : L Place := fun l =>
  match l.heap.links.next place with
  | none => .error .poison l
  | some next => .ok next l

/-- Read the entry of a node. -/
def entryOf (n : ℕ) : L RegistryEntry := fun l =>
  match l.heap.nodes[n]? with
  | none => .error .wild l
  | some entry => .ok entry l

/-- The number of nodes, which no walk can exceed. -/
def allocated : L ℕ := fun l => .ok l.heap.nodes.length l

/-- A new node with this entry. -/
def newNode (entry : RegistryEntry) : L ℕ := fun l =>
  .ok l.heap.nodes.length { l with heap := { l.heap with nodes := l.heap.nodes ++ [entry] } }

/-- Change the links, and record the change. -/
def relink (update : Update) (links : Option (Links Place)) : L PUnit := fun l =>
  match links with
  | none => .error .poison l
  | some links => .ok ⟨⟩ { l with heap := { l.heap with links := links, updates := l.heap.updates ++ [update] } }

/-- `INIT_LIST_HEAD` of the registry. -/
def initListHead : L PUnit := fun l =>
  .ok ⟨⟩ { l with heap := { l.heap with links := applyAll (initStores .head) l.heap.links } }

/-- `check_list_init` of the registry. -/
def checkListInit : L Bool := fun l =>
  .ok (l.heap.links.next .head == some .head && l.heap.links.prev .head == some .head) l

/-- `list_empty` of the registry. -/
def listEmpty : L Bool := do
  let first ← nextOf .head
  pure (first == .head)

/-- `list_add_tail` to the registry. -/
def listAddTail (n : ℕ) : L PUnit := fun l => relink (.insert n) (l.heap.links.addTail .head (.node n)) l

/-- `list_del`. -/
def listDel (n : ℕ) : L PUnit := fun l => relink (.remove n) (l.heap.links.delete (.node n)) l

end Heap

section

variable {δ : Type} (env : Env δ)

/-- The test of a node in `search_entry`. -/
def testNode (criteria : ℕ) (path : CString) (inoNo : UInt64) (currNode : RegistryEntry) : K Bool :=
  if matchesFields criteria currNode path inoNo then pure true
  else if hasFlag criteria REFMON_SEARCH_CRIT_SUBDIR_CHECK then do
    let dir ← isDir env currNode.resolved.path
    pure (dir != 0 && isSubpath currNode.resolved.path path)
  else pure false

/-- The loop of `search_entry`, `list_for_each_entry`, behind this place. -/
def Linked.searchNodes (criteria : ℕ) (path : CString) (inoNo : UInt64) : ℕ → Place → L (Option ℕ)
  | 0, _ => throw .endless
  | fuel + 1, place => do
    match ← nextOf place with
    | .head => pure none
    | .node n => do
      let currNode ← entryOf n
      let hit ← inKernel (testNode env criteria path inoNo currNode)
      if hit then pure (some n) else Linked.searchNodes criteria path inoNo fuel (.node n)

/-- `search_entry`, with the node that it returns. -/
def Linked.searchEntry (idPath : Option CString) (idInoNo : UInt64) (criteria : ℕ) : L (Option ℕ) := do
  let empty ← listEmpty
  if empty then pure none
  else
    match idPath with
    | none => pure none
    | some path =>
      if matchString path [] ∧ (hasFlag criteria REFMON_SEARCH_CRIT_REGISTERED_PATH ∨
          hasFlag criteria REFMON_SEARCH_CRIT_ABSOLUTE_PATH ∨
          hasFlag criteria REFMON_SEARCH_CRIT_SUBDIR_CHECK) then pure none
      else do
        let nodes ← allocated
        Linked.searchNodes env criteria path idInoNo (nodes + 1) .head

/-- `find_entry_by_regpath_alloc`. -/
def Linked.findEntryByRegpathAlloc (registeredPath : Option CString) : L (Option ℕ) := do
  match ← inKernel (resolvePathAlloc env registeredPath REFMON_FSUTILS_IGNORE_ABSOLUTE_PATHS) with
  | none => pure none
  | some solved =>
    Linked.searchEntry env (some solved) REFMON_NO_INO_NO REFMON_SEARCH_CRIT_REGISTERED_PATH

/-- `is_eligible`. -/
def Linked.isEligible (id : PathIdentifier) : L Bool := do
  let ret ← Linked.searchEntry env (some id.path) id.inoNo
    (REFMON_SEARCH_CRIT_ABSOLUTE_PATH ||| REFMON_SEARCH_CRIT_ABSOLUTE_INO |||
      REFMON_SEARCH_CRIT_SUBDIR_CHECK)
  pure ret.isSome

/-- `_add_file`. -/
def Linked.addFile (path : CString) : L ℤ := do
  let buffer ← inKernel (kmalloc env)
  if buffer = false then pure (-ENOMEM)
  else do
    match ← inKernel (resolvePathAlloc env (some path) REFMON_FSUTILS_IGNORE_ABSOLUTE_PATHS) with
    | none => pure (-EINVAL)
    | some registeredPath => do
      let present ← Linked.findEntryByRegpathAlloc env (some registeredPath)
      if present.isSome then pure (-EEXIST)
      else do
        let buffer ← inKernel (kmalloc env)
        if buffer = false then pure (-ENOMEM)
        else do
          match ← inKernel (resolvePathAlloc env (some path)
              (REFMON_FSUTILS_RESOLVE_LINKS ||| REFMON_FSUTILS_IGNORE_ABSOLUTE_PATHS)) with
          | none => pure (-EINVAL)
          | some resolvedPath => do
            let inoRegistered ← inKernel (extractInoNoFromPath env path)
            if inoRegistered = REFMON_NO_INO_NO then pure (-EINVAL)
            else do
              let inoResolved ← inKernel (extractInoNoFromPath env resolvedPath)
              if inoResolved = REFMON_NO_INO_NO then pure (-EINVAL)
              else do
                let node ← inKernel (kmalloc env)
                if node = false then pure (-ENOMEM)
                else do
                  let n ← newNode ⟨⟨registeredPath, inoRegistered⟩, ⟨resolvedPath, inoResolved⟩⟩
                  listAddTail n
                  pure 0

/-- `do_reconf_add`. -/
def Linked.doReconfAdd (pathIn passwordIn : UserPtr) : L ℤ := do
  inKernel spinInstanceLock
  let ret ← inKernel (safetyChecks env reconfChecks passwordIn)
  if ret ≠ 0 then inKernel (tail ret)
  else do
    match ← inKernel (sanitizeUserInputAlloc env pathIn) with
    | none => inKernel (tail (-EINVAL))
    | some buffer => do
      let safePath ← inKernel (readBuffer buffer)
      let ret ← Linked.addFile env safePath
      if ret ≠ 0 then inKernel (tail ret) else inKernel (tail 0)

/-- `do_reconf_rm`. -/
def Linked.doReconfRm (pathIn passwordIn : UserPtr) : L ℤ := do
  inKernel spinInstanceLock
  let ret ← inKernel (safetyChecks env reconfChecks passwordIn)
  if ret ≠ 0 then inKernel (tail ret)
  else do
    match ← inKernel (sanitizeUserInputAlloc env pathIn) with
    | none => inKernel (tail (-EINVAL))
    | some buffer => do
      let safePath ← inKernel (readBuffer buffer)
      let key ← inKernel (resolvePathAlloc env (some safePath) REFMON_FSUTILS_IGNORE_ABSOLUTE_PATHS)
      match ← Linked.findEntryByRegpathAlloc env key with
      | none => inKernel (tail (-ENOENT))
      | some found => do
        listDel found
        inKernel (tail 0)

/-- The loop of `do_flush_registry`, `list_for_each_entry_safe`: the place after the next one is read
when the node has been taken out. -/
def Linked.flushNodes : ℕ → Place → Place → L PUnit
  | 0, _, _ => throw .endless
  | _ + 1, .head, _ => pure ⟨⟩
  | fuel + 1, .node n, nodeAux => do
    listDel n
    let next ← nextOf nodeAux
    Linked.flushNodes fuel nodeAux next

/-- `do_flush_registry`. -/
def Linked.doFlushRegistry (password : UserPtr) : L ℤ := do
  inKernel spinInstanceLock
  let ret ← inKernel (safetyChecks env reconfChecks password)
  if ret ≠ 0 then inKernel (tail ret)
  else do
    let empty ← listEmpty
    if empty then inKernel (tail 0)
    else do
      let node ← nextOf .head
      let nodeAux ← nextOf node
      let nodes ← allocated
      Linked.flushNodes (nodes + 1) node nodeAux
      inKernel (tail 0)

/-- The handler of a call. -/
def Linked.handler : Call → L ℤ
  | .setState newState => inKernel (doSetState env newState)
  | .reconfAdd pathIn passwordIn => Linked.doReconfAdd env pathIn passwordIn
  | .reconfRm pathIn passwordIn => Linked.doReconfRm env pathIn passwordIn
  | .flushRegistry password => Linked.doFlushRegistry env password

/-- `init_instance`. -/
def Linked.initInstance : L ℤ := do
  inKernel (put fun core => { core with theInstance := { core.theInstance with state := .OFF } })
  initListHead
  let ok ← checkListInit
  if ok then pure 0 else pure (-ENOTRECOVERABLE)

/-- `init_module`. -/
def Linked.initModule : L ℤ := do
  let ret ← inKernel (initPassword env)
  if ret ≠ 0 then inKernel (abort ret)
  else do
    let ret ← Linked.initInstance
    if ret ≠ 0 then inKernel (abort ret)
    else do
      let ret ← inKernel (initProcfiles env)
      if ret ≠ 0 then inKernel (abort ret)
      else do
        let ret ← inKernel (initSyscalls env)
        if ret ≠ 0 then inKernel (abort ret)
        else do
          let ret ← inKernel (initProbes env)
          if ret ≠ 0 then inKernel (abort ret) else pure 0

/-- How a call ends. -/
def Event.linkedResult (e : Event δ) (l : Linked) : EStateM.Result LinkFault Linked ℤ :=
  Linked.handler e.env e.call l

/-- The state that a call leaves, however it ends. -/
def linkedStep (e : Event δ) (l : Linked) : Linked := after (e.linkedResult l)

end

end Refmon
