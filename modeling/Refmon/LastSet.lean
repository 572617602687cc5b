import Refmon.StateValidity

/-!
# The state is the one that was set last

Over a run of calls the state changes by the calls of `do_set_state` that return zero, and by nothing
else. If nobody writes to the arguments of these calls, the state is the one whose name the last of them
was given.
-/

namespace Refmon

open Wp Runs

variable {δ : Type}

/-- The argument of a call that sets the state, if it returns zero. -/
def Event.sets (e : Event δ) (k : Kernel) : Option UserPtr :=
  match e.call, returned (e.result k) with
  | .setState newState, some 0 => some newState
  | _, _ => none

/-- The argument of the last call of a run that sets the state. -/
def lastSet : List (Event δ) → Kernel → Option UserPtr
  | [], _ => none
  | e :: rest, k => (lastSet rest (step e k)).or (e.sets k)

/-- A scan of memory that holds no string faults at once. -/
theorem matchState_of_error {user : UserPtr} {fault : Fault} {k m : Kernel} (h : userStrlen user k = .error fault m) :
    matchState user stateNames k = .error fault m :=
  bind_of_error (bind_of_error h _) _

/-- A scan that finds a name in memory that nobody writes to has found a string there. -/
theorem pointsTo_of_matchState {user : UserPtr} (hstable : user.Stable) {state : RefmonState} {k m : Kernel}
    (h : matchState user stateNames k = .ok (some state) m) : ∃ name, PointsTo user name := by
  rcases hstable.cases with hpoints | rfl | ⟨region, rfl, hnone⟩
  · exact hpoints
  · have hfault : userStrlen none k = .error .nullDeref k := rfl
    cases h.symm.trans (matchState_of_error hfault)
  · have hstrlen (n : ℕ) : strlen (region n) = none := by
      rw [strlen, hnone, Option.map_none]
    have hfault : userStrlen (some region) k = .error .userFault k.tick := by
      rw [userStrlen, ask_bind, hstrlen]
      rfl
    cases h.symm.trans (matchState_of_error hfault)

/-- The name that a scan finds is the one in memory. -/
theorem stateToString_of_matchState {user : UserPtr} {name : CString} (hpoints : PointsTo user name)
    {state : RefmonState} {k m : Kernel} (h : matchState user stateNames k = .ok (some state) m) :
    stateToString state = some name := by
  have hfound := (wp_ok (wp_matchState (E := fun _ _ => True) stateNames (hpoints.from _)) h).1
  obtain ⟨⟨found, value⟩, hfind, rfl⟩ := Option.map_eq_some_iff.mp hfound.symm
  have hname : found = name := by simpa using List.find?_some hfind
  have hmem := List.mem_of_find?_eq_some hfind
  rw [hname] at hmem
  exact (stateNames_iff name _).mp hmem

/-- A call that sets the state is one of `do_set_state` that returns zero. -/
theorem Event.sets_eq {e : Event δ} {k : Kernel} {newState : UserPtr} (h : e.sets k = some newState) :
    e.call = .setState newState ∧ e.result k = .ok 0 (step e k) := by
  unfold Event.sets at h
  split at h
  · rename_i hcall hret
    cases h
    exact ⟨hcall, returned_eq_some hret⟩
  · cases h

/-- A call that sets the state to what nobody writes to gives it the name there. -/
theorem Event.sets_state {e : Event δ} {k : Kernel} {newState : UserPtr} (h : e.sets k = some newState)
    (hstable : newState.Stable) :
    ∃ name, PointsTo newState name ∧ stateToString (step e k).core.theInstance.state = some name := by
  obtain ⟨hcall, hresult⟩ := Event.sets_eq h
  have hchanges := changes_of_result hresult
  rw [Event.Changes, hcall] at hchanges
  obtain ⟨-, validated, m, state, u, hvalid, hread, hcore⟩ := hchanges
  obtain ⟨name, hpoints⟩ := pointsTo_of_matchState hstable hvalid
  have hname := stateToString_of_matchState hpoints hvalid
  have hstate := (wp_ok (wp_stringToState (E := fun _ _ => True) (hpoints.from _) hname) hread).1
  refine ⟨name, hpoints, ?_⟩
  rw [← hname, ← hstate]
  exact congrArg (fun core : Core => stateToString core.theInstance.state) hcore

/-- Every other call leaves the state alone. -/
theorem Event.state_of_not_sets {e : Event δ} {k : Kernel} (h : e.sets k = none) :
    (step e k).core.theInstance.state = k.core.theInstance.state := by
  rcases step_cases e k with hcore | ⟨hresult, hchanges⟩
  · rw [hcore]
  · rcases hchanges.reconfigured with ⟨newState, hcall⟩ | ⟨change, hreconf⟩
    · rw [Event.sets, hcall, hresult] at h
      cases h
    · exact hreconf.frame.1

/-- The state after a run: the one before it, unless a call has set it. -/
theorem state_lastSet (events : List (Event δ)) (k : Kernel)
    (hstable : ∀ e ∈ events, ∀ newState, e.call = .setState newState → newState.Stable) :
    match lastSet events k with
    | none => (run step events k).core.theInstance.state = k.core.theInstance.state
    | some newState => ∃ name, PointsTo newState name ∧
        stateToString (run step events k).core.theInstance.state = some name := by
  induction events generalizing k with
  | nil => rfl
  | cons e rest ih =>
    have hrest := ih (step e k) fun other hmem => hstable other (List.mem_cons_of_mem _ hmem)
    rw [run_cons, lastSet]
    cases hlast : lastSet rest (step e k) with
    | some newState =>
      rw [hlast] at hrest
      exact hrest
    | none =>
      rw [hlast] at hrest
      rw [Option.none_or]
      cases hsets : e.sets k with
      | none => exact hrest.trans (Event.state_of_not_sets hsets)
      | some newState =>
        have hcall := (Event.sets_eq hsets).1
        obtain ⟨name, hpoints, hname⟩ :=
          Event.sets_state hsets (hstable e List.mem_cons_self newState hcall)
        refine ⟨name, hpoints, ?_⟩
        rw [hrest]
        exact hname

end Refmon
