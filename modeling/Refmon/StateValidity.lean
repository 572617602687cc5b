import Refmon.Authorisation

/-!
# The state when user memory changes under the call

`do_set_state` validates its argument and then reads it again to convert it. Each reading
fetches the buffer several times, and another thread may write to it in between. The state
stays one of the four enumerators as long as a validated buffer keeps its name; otherwise the
conversion can find another name, or none.
-/

namespace Refmon

open Wp Runs

variable {δ : Type} {sha256 : List UInt8 → Digest}

/-- The validation, begun at `k`, accepts the name of `state` and ends at `m`. -/
def Validates (newState : UserPtr) (k : Kernel) (state : RefmonState) (m : Kernel) : Prop :=
  matchState newState stateNames k.locked = .ok (some state) m

/-- Once its validation has accepted a name, the argument of `do_set_state` keeps that name. -/
def Event.KeepsName (e : Event δ) (k : Kernel) : Prop :=
  ∀ newState validated m, e.call = .setState newState → Validates newState k validated m →
    ∃ name, stateToString validated = some name ∧ ReadsFrom m.aux.clock newState name

/-- A call whose argument keeps its name sets the state that was validated. -/
theorem state_of_keepsName {e : Event δ} {k t : Kernel} {newState : UserPtr}
    (hcall : e.call = .setState newState) (hkeeps : e.KeepsName k) (hchanges : e.Changes k t) :
    ∃ validated m, Validates newState k validated m ∧ t.core.theInstance.state = validated := by
  rw [Event.Changes, hcall] at hchanges
  obtain ⟨-, validated, m, state, u, hvalid, hread, hcore⟩ := hchanges
  obtain ⟨name, hname, hreads⟩ := hkeeps newState validated m hcall hvalid
  have hstate := (wp_ok (wp_stringToState (E := fun _ _ => True) hreads hname) hread).1
  rw [hcore]
  exact ⟨validated, m, hvalid, hstate⟩

/-- A step that keeps its name leaves one of the four states. -/
theorem step_valid (e : Event δ) (k : Kernel) (hkeeps : e.KeepsName k)
    (hk : k.core.theInstance.state.Valid) : (step e k).core.theInstance.state.Valid := by
  rcases step_cases e k with hcore | ⟨-, hchanges⟩
  · rw [hcore]
    exact hk
  · rcases hchanges.reconfigured with ⟨newState, hcall⟩ | ⟨change, hreconf⟩
    · obtain ⟨validated, m, hvalid, hstate⟩ := state_of_keepsName hcall hkeeps hchanges
      rw [hstate]
      exact valid_of_matchState hvalid
    · rw [hreconf.frame.1]
      exact hk

section Race

/-- A buffer that shows `OFF` until the moment `9`, and then `XYZ`. -/
def racedBuffer : UserPtr :=
  some fun n => if n < 9 then REFMON_STATE_STRING_OFF.mem else (lit "XYZ").mem

/-- Root sets the state with the raced buffer. -/
def racedSetState : Event Unit := rootCall rootOnly (.setState racedBuffer)

/-- A call whose argument points to the name of a state keeps it. -/
theorem rootSetState_keepsName (fs : Vfs δ) (name : CString) (k : Kernel) (state : RefmonState)
    (hname : stateToString state = some name) : (rootSetState fs name).KeepsName k := by
  intro newState validated m hcall hvalid
  cases hcall
  have hreads := (userString_pointsTo name).from k.locked.aux.clock
  have hfound := (wp_ok (wp_matchState (E := fun _ _ => True) stateNames hreads) hvalid).1
  rw [find_stateNames hname, Option.some.injEq] at hfound
  exact ⟨name, by rw [hfound]; exact hname, (userString_pointsTo name).from _⟩

end Race

end Refmon
