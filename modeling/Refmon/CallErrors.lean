import Refmon.Calls

/-!
# The errors of the calls

Each handler returns zero or one of a few errors, and the command line tool has a text for each error of
the calls that it makes outside its test mode.
-/

namespace Refmon

open Wp

/-- The errors of the checks that the reconfiguration calls ask for. -/
def checkErrors : List ℤ := [-EACCES, -EPERM, -EINVAL]

/-- The errors that a call can return. -/
def Call.errors : Call → List ℤ
  | .setState _ => [-EACCES, -EINVAL]
  | .reconfAdd _ _ => checkErrors ++ [-ENOMEM, -EEXIST]
  | .reconfRm _ _ => checkErrors ++ [-ENOENT]
  | .flushRegistry _ => checkErrors

variable {δ : Type} (env : Env δ)

theorem yields_passwordCheck (arg : UserPtr) : Yields [0, -EINVAL, -EACCES] (passwordCheck env arg) := by
  apply Yields.bind
  intro out
  cases out with
  | none => exact Yields.pure (by simp)
  | some buffer =>
    apply Yields.bind
    intro safePassword
    apply Yields.bind
    intro same
    exact Yields.ite (fun _ => Yields.pure (by simp)) fun _ => Yields.pure (by simp)

/-- The checks of the reconfiguration calls pass or return one of their errors. -/
theorem yields_safetyChecks (arg : UserPtr) : Yields (0 :: checkErrors) (safetyChecks env reconfChecks arg) := by
  rw [safetyChecks_reconf]
  apply Yields.ite
  · intro _
    exact Yields.pure (by simp [checkErrors])
  · intro _
    apply Yields.bind
    intro reconf
    apply Yields.ite
    · intro _
      exact Yields.pure (by simp [checkErrors])
    · intro _ s
      apply wp_mono (yields_passwordCheck env arg s) _ fun _ _ _ => trivial
      intro ret t hret
      simp [checkErrors] at hret ⊢
      tauto

/-- `_add_file` returns zero or one of three errors. -/
theorem yields_addFile (path : CString) : Yields [0, -ENOMEM, -EINVAL, -EEXIST] (addFile env path) := by
  have hend {ret : ℤ} (h : ret ∈ [0, -ENOMEM, -EINVAL, -EEXIST]) :
      Yields [0, -ENOMEM, -EINVAL, -EEXIST] (pure ret : K ℤ) := Yields.pure h
  apply Yields.bind
  intro buffer
  apply Yields.ite (fun _ => hend (by simp))
  intro _
  apply Yields.bind
  intro registeredPath
  cases registeredPath with
  | none => exact hend (by simp)
  | some registeredPath =>
    apply Yields.bind
    intro present
    apply Yields.ite (fun _ => hend (by simp))
    intro _
    apply Yields.bind
    intro buffer
    apply Yields.ite (fun _ => hend (by simp))
    intro _
    apply Yields.bind
    intro resolvedPath
    cases resolvedPath with
    | none => exact hend (by simp)
    | some resolvedPath =>
      apply Yields.bind
      intro inoRegistered
      apply Yields.ite (fun _ => hend (by simp))
      intro _
      apply Yields.bind
      intro inoResolved
      apply Yields.ite (fun _ => hend (by simp))
      intro _
      apply Yields.bind
      intro node
      apply Yields.ite (fun _ => hend (by simp))
      intro _
      exact Yields.bind fun _ => hend (by simp)

theorem yields_tail {ret : ℤ} {answers : List ℤ} (h : ret ∈ answers) : Yields answers (tail ret) :=
  Yields.bind fun _ => Yields.pure h

/-- A reconfiguration call returns an error of the checks, or what follows them returns. -/
theorem yields_guarded (arg : UserPtr) {errors : List ℤ} {body : K ℤ}
    (hbody : Yields (0 :: (checkErrors ++ errors)) body) :
    Yields (0 :: (checkErrors ++ errors)) (do
      spinInstanceLock
      let ret ← safetyChecks env reconfChecks arg
      if ret ≠ 0 then tail ret else body) := by
  apply Yields.bind
  intro _
  apply Yields.after (yields_safetyChecks env arg)
  intro ret hret
  apply Yields.ite
  · intro hne
    apply yields_tail
    rw [List.mem_cons] at hret ⊢
    exact hret.imp_right (List.mem_append_left errors)
  · exact fun _ => hbody

/-- Every call that returns returns zero or one of its errors. -/
theorem yields_handler (call : Call) : Yields (0 :: call.errors) (call.handler env) := by
  cases call with
  | setState newState =>
    intro s
    apply wp_doSetState_readings
    · intro _
      trivial
    · intro _
      simp [Call.errors]
    · intro _ _ _
      trivial
    · intro _ _
      simp [Call.errors]
    · intro _ _ _ _ _ _
      trivial
    · intro _ _ _ _ _ _ _ _ _ _
      simp
  | reconfAdd pathIn passwordIn =>
    apply yields_guarded
    apply Yields.bind
    intro out
    cases out with
    | none => exact yields_tail (by simp [checkErrors])
    | some buffer =>
      apply Yields.bind
      intro safePath
      apply Yields.after (yields_addFile env safePath)
      intro ret hret
      apply Yields.ite
      · intro _
        apply yields_tail
        simp [checkErrors] at hret ⊢
        tauto
      · exact fun _ => yields_tail (by simp)
  | reconfRm pathIn passwordIn =>
    apply yields_guarded
    apply Yields.bind
    intro out
    cases out with
    | none => exact yields_tail (by simp [checkErrors])
    | some buffer =>
      apply Yields.bind
      intro safePath
      apply Yields.bind
      intro key
      apply Yields.bind
      intro found
      cases found with
      | none => exact yields_tail (by simp)
      | some found => exact Yields.bind fun _ => yields_tail (by simp)
  | flushRegistry password =>
    have hbody : Yields (0 :: (checkErrors ++ [])) (do
        let registry ← gets fun core => core.theInstance.registry
        if registry.isEmpty then tail 0
        else do
          put fun core => { core with theInstance := { core.theInstance with
            registry := registry.foldl List.erase core.theInstance.registry } }
          tail 0) := by
      apply Yields.bind
      intro registry
      apply Yields.ite (fun _ => yields_tail (by simp))
      intro _
      exact Yields.bind fun _ => yields_tail (by simp)
    have hguarded := yields_guarded env password hbody
    rwa [List.append_nil] at hguarded

end Refmon
