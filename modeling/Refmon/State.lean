import Refmon.UserMemory

/-!
# The states of the reference monitor

`string_to_state` and `is_state_valid` test the same four names in the same order, each
with its own `MATCH_STRING`; both are written here over the one scan `matchState`.
-/

namespace Refmon

open Wp

def REFMON_STATE_STRING_OFF : CString := lit "OFF"
def REFMON_STATE_STRING_ON : CString := lit "ON"
def REFMON_STATE_STRING_RECOFF : CString := lit "REC-OFF"
def REFMON_STATE_STRING_RECON : CString := lit "REC-ON"

/-- The names in the order in which they are tested. -/
def stateNames : List (CString × RefmonState) :=
  [(REFMON_STATE_STRING_OFF, .OFF), (REFMON_STATE_STRING_ON, .ON),
    (REFMON_STATE_STRING_RECOFF, .REC_OFF), (REFMON_STATE_STRING_RECON, .REC_ON)]

/-- The state of the first name that matches. -/
def matchState (user : UserPtr) : List (CString × RefmonState) → K (Option RefmonState)
  | [] => pure none
  | (name, state) :: rest => do
    let found ← userMatchString user name
    if found then pure (some state) else matchState user rest

/-- `string_to_state`. -/
def stringToState (user : UserPtr) : K RefmonState := do
  let found ← matchState user stateNames
  pure (found.getD (.other (-EINVAL)))

/-- `is_state_valid`. -/
def isStateValid (user : UserPtr) : K Bool := do
  let found ← matchState user stateNames
  pure found.isSome

/-- `state_to_string`. -/
def stateToString : RefmonState → Option CString
  | .OFF => some REFMON_STATE_STRING_OFF
  | .ON => some REFMON_STATE_STRING_ON
  | .REC_OFF => some REFMON_STATE_STRING_RECOFF
  | .REC_ON => some REFMON_STATE_STRING_RECON
  | .other _ => none

/-- `is_off`. -/
def isOff (inst : TheInstance) : Bool := inst.state == .OFF || inst.state == .REC_OFF

/-- `is_on`: whatever is not off, a value outside the enumerators included. -/
def isOn (inst : TheInstance) : Bool := !isOff inst

/-- `is_reconf`. -/
def isReconf (inst : TheInstance) : Bool := inst.state == .REC_OFF || inst.state == .REC_ON

/-- The value is one of the four enumerators. -/
def RefmonState.Valid (state : RefmonState) : Prop :=
  state = .OFF ∨ state = .ON ∨ state = .REC_OFF ∨ state = .REC_ON

instance : DecidablePred RefmonState.Valid := fun state => by
  unfold RefmonState.Valid; infer_instance

/-- Exactly the enumerators have a name. -/
theorem stateToString_isSome_iff (state : RefmonState) :
    (stateToString state).isSome = true ↔ state.Valid := by
  cases state <;> simp [stateToString, RefmonState.Valid]

/-- Each tested name is the name of the state it stands for. -/
theorem stateNames_iff (name : CString) (state : RefmonState) :
    (name, state) ∈ stateNames ↔ stateToString state = some name := by
  cases state <;> simp [stateNames, stateToString, eq_comm]

theorem Steady.moves_matchState {R : Kernel → Kernel → Prop} (h : Steady R) (user : UserPtr)
    (names : List (CString × RefmonState)) : Moves R (matchState user names) := by
  induction names with
  | nil => exact Moves.pure h.refl _
  | cons head rest ih =>
    exact Moves.bind h.trans (h.moves_userMatchString user head.1) fun _ =>
      Moves.ite (Moves.pure h.refl _) ih

theorem Steady.moves_stringToState {R : Kernel → Kernel → Prop} (h : Steady R) (user : UserPtr) :
    Moves R (stringToState user) :=
  Moves.bind h.trans (h.moves_matchState user _) fun _ => Moves.pure h.refl _

theorem Steady.moves_isStateValid {R : Kernel → Kernel → Prop} (h : Steady R) (user : UserPtr) :
    Moves R (isStateValid user) :=
  Moves.bind h.trans (h.moves_matchState user _) fun _ => Moves.pure h.refl _

theorem moves_matchState (user : UserPtr) (names : List (CString × RefmonState)) :
    Moves Same (matchState user names) := Same.steady.moves_matchState user names

theorem moves_stringToState (user : UserPtr) : Moves Same (stringToState user) :=
  Same.steady.moves_stringToState user

/-- A scan finds one of the states it was given. -/
theorem wp_matchState_mem (user : UserPtr) (names : List (CString × RefmonState)) (k : Kernel) :
    wp (matchState user names)
      (fun found _ => ∀ state, found = some state → ∃ name, (name, state) ∈ names)
      (fun _ _ => True) k := by
  induction names generalizing k with
  | nil => simp [matchState]
  | cons head rest ih =>
    rw [matchState, wp_bind]
    refine wp_mono ((moves_userMatchString user head.1) k) (fun b t _ => ?_) fun _ _ _ => trivial
    split
    · rw [wp_pure]
      rintro state ⟨⟩
      exact ⟨head.1, List.mem_cons_self⟩
    · refine wp_mono (ih t) (fun found _ h state hs => ?_) fun _ _ _ => trivial
      obtain ⟨name, hname⟩ := h state hs
      exact ⟨name, List.mem_cons_of_mem _ hname⟩

/-- A scan of a string nobody writes to looks the string up. -/
theorem wp_matchState {user : UserPtr} {s : CString} {k : Kernel} {E : Fault → Kernel → Prop}
    (names : List (CString × RefmonState)) (h : ReadsFrom k.aux.clock user s) :
    wp (matchState user names)
      (fun found t => found = (names.find? (fun entry => entry.1 = s)).map Prod.snd ∧ Same k t) E k := by
  induction names generalizing k with
  | nil => exact ⟨rfl, Same.refl k⟩
  | cons head rest ih =>
    rw [matchState, wp_bind]
    refine wp_mono (wp_userMatchString head.1 h) ?_ fun _ _ hE => hE
    rintro b t ⟨hb, ht⟩
    by_cases hs : s = head.1
    · rw [if_pos (hb.mpr hs), wp_pure, List.find?_cons_of_pos (by simp [hs])]
      exact ⟨rfl, ht⟩
    · rw [if_neg (fun htrue => hs (hb.mp htrue)), List.find?_cons_of_neg (by simp [Ne.symm hs])]
      refine wp_mono (ih (h.later ht.clock)) ?_ fun _ _ hE => hE
      rintro found u ⟨hfound, hu⟩
      exact ⟨hfound, Same.trans _ _ _ ht hu⟩

/-- The name of a state is found where it stands in the list. -/
theorem find_stateNames {name : CString} {state : RefmonState}
    (h : stateToString state = some name) :
    (stateNames.find? (fun entry => entry.1 = name)).map Prod.snd = some state := by
  cases state with
  | other value => simp [stateToString] at h
  | _ =>
    rw [stateToString, Option.some.injEq] at h
    subst h
    decide

/-- The conversion of a name that nobody writes to gives the state of that name. -/
theorem wp_stringToState {user : UserPtr} {name : CString} {state : RefmonState} {k : Kernel}
    {E : Fault → Kernel → Prop} (h : ReadsFrom k.aux.clock user name)
    (hname : stateToString state = some name) :
    wp (stringToState user) (fun out t => out = state ∧ Same k t) E k := by
  rw [stringToState, wp_bind]
  apply wp_mono (wp_matchState stateNames h) _ fun _ _ hE => hE
  intro found t ⟨hfound, ht⟩
  rw [find_stateNames hname] at hfound
  rw [hfound]
  exact ⟨rfl, ht⟩

/-- Whatever the validation accepts is one of the four states. -/
theorem valid_of_matchState {user : UserPtr} {state : RefmonState} {k m : Kernel}
    (h : matchState user stateNames k = .ok (some state) m) : state.Valid := by
  obtain ⟨name, hname⟩ := wp_ok (wp_matchState_mem user stateNames k) h state rfl
  rw [← stateToString_isSome_iff, (stateNames_iff name state).mp hname]
  rfl

end Refmon
