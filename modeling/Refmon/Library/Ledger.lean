import Mathlib.Data.List.Count
import Mathlib.Tactic.Common

/-!
# What is taken and given back

A ledger notes, in order, what a program takes and what it gives back. It settles when nothing is
given back that is not held at that moment, and what remains is what is still held. In a ledger that
settles, everything is given back as often as it was taken, up to what is still held.
-/

namespace Ledger

variable {ρ : Type} [DecidableEq ρ]

/-- A line of a ledger. -/
inductive Entry (ρ : Type)
  | took (r : ρ)
  | gave (r : ρ)
deriving DecidableEq

/-- What is held after some entries, unless something was given back that was not held. -/
def settle : List (Entry ρ) → List ρ → Option (List ρ)
  | [], held => some held
  | .took r :: rest, held => settle rest (r :: held)
  | .gave r :: rest, held => if r ∈ held then settle rest (held.erase r) else none

/-- What was held and what was taken is what was given back and what is held. -/
theorem count_of_settle {entries : List (Entry ρ)} {held after : List ρ}
    (h : settle entries held = some after) (r : ρ) :
    held.count r + entries.count (.took r) = after.count r + entries.count (.gave r) := by
  induction entries generalizing held with
  | nil =>
    rw [settle, Option.some.injEq] at h
    rw [h]
    rfl
  | cons entry entries ih =>
    cases entry with
    | took s =>
      have hcount := ih h
      rw [List.count_cons] at hcount
      by_cases hs : s = r
      · subst hs
        rw [beq_self_eq_true, if_pos rfl] at hcount
        rw [List.count_cons_self, List.count_cons_of_ne (by simp)]
        omega
      · rw [if_neg (by simpa using hs)] at hcount
        rw [List.count_cons_of_ne (by simpa using hs), List.count_cons_of_ne (by simp)]
        omega
    | gave s =>
      rw [settle] at h
      split at h
      · rename_i hmem
        have hcount := ih h
        by_cases hs : s = r
        · subst hs
          have hpos := List.count_pos_iff.mpr hmem
          rw [List.count_erase_self] at hcount
          rw [List.count_cons_of_ne (by simp), List.count_cons_self]
          omega
        · rw [List.count_erase_of_ne (Ne.symm hs)] at hcount
          rw [List.count_cons_of_ne (by simp), List.count_cons_of_ne (by simpa using hs)]
          omega
      · cases h

end Ledger
