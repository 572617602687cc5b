import Mathlib.Data.List.Basic
import Mathlib.Tactic.Common

/-!
# The texts that fit a buffer

Texts are put into a buffer one after the other, up to the first that leaves nothing of the buffer
for an end. What is in the buffer is the longest prefix of the texts that is shorter than the buffer.
-/

namespace Fitting

variable {α : Type*}

/-- The texts up to the first that does not leave anything of the rest of the size. -/
def fitting : ℕ → List (List α) → List (List α)
  | _, [] => []
  | size, text :: texts =>
    if text.length < size then text :: fitting (size - text.length) texts else []

/-- The texts are a prefix, shorter than the size together, and any other prefix that is shorter than
the size is a prefix of them. -/
structure LongestBelow (size : ℕ) (texts shown : List (List α)) : Prop where
  isPrefix : shown <+: texts
  below : shown.flatten.length < size
  longest : ∀ other, other <+: texts → other.flatten.length < size → other <+: shown

/-- The texts that are put into a buffer are the longest prefix shorter than it. -/
theorem fitting_longest {size : ℕ} (hsize : 0 < size) (texts : List (List α)) :
    LongestBelow size texts (fitting size texts) := by
  induction texts generalizing size with
  | nil => exact ⟨List.prefix_rfl, hsize, fun _ hinit _ => hinit⟩
  | cons text texts ih =>
    rw [fitting]
    split
    · rename_i htext
      obtain ⟨hinit, hbelow, hlongest⟩ := @ih (size - text.length) (by omega)
      refine ⟨(List.prefix_cons_inj text).mpr hinit, ?_, ?_⟩
      · rw [List.flatten_cons, List.length_append]
        omega
      · intro other hother hlt
        cases other with
        | nil => exact List.nil_prefix
        | cons first rest =>
          obtain ⟨heq, hrest⟩ := List.cons_prefix_cons.mp hother
          rw [heq, List.flatten_cons, List.length_append] at hlt
          rw [heq]
          exact (List.prefix_cons_inj text).mpr (hlongest rest hrest (by omega))
    · rename_i htext
      refine ⟨List.nil_prefix, hsize, ?_⟩
      intro other hother hlt
      cases other with
      | nil => exact List.nil_prefix
      | cons first rest =>
        obtain ⟨heq, -⟩ := List.cons_prefix_cons.mp hother
        rw [heq, List.flatten_cons, List.length_append] at hlt
        omega

/-- All texts are shown exactly if they are shorter than the size together. -/
theorem LongestBelow.flatten_eq_iff {size : ℕ} {texts shown : List (List α)}
    (h : LongestBelow size texts shown) :
    shown.flatten = texts.flatten ↔ texts.flatten.length < size := by
  constructor
  · intro heq
    rw [← heq]
    exact h.below
  · intro hlt
    have hall := h.longest texts List.prefix_rfl hlt
    rw [h.isPrefix.eq_of_length_le hall.length_le]

end Fitting
