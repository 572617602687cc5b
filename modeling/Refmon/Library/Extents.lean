import Mathlib.Data.List.Basic
import Mathlib.Tactic.Common

/-!
# Extents laid one after the other

An extent is a starting position with the items stored from there on. `Laid` says that a
sequence of extents lies between two positions in order, without overlap, each holding its
items; gaps between extents are allowed.
-/

namespace Extents

variable {α : Type*}

/-- The items stand at consecutive positions from `start` on. -/
def Holds (read : ℕ → α) (start : ℕ) (items : List α) : Prop :=
  ∀ i (h : i < items.length), read (start + i) = items[i]

/-- The extents lie in order between two positions, and the last one ends at the second. -/
def Laid (read : ℕ → α) : ℕ → List (ℕ × List α) → ℕ → Prop
  | start, [], stop => stop = start
  | start, (offset, items) :: rest, stop =>
    start ≤ offset ∧ Holds read offset items ∧ Laid read (offset + items.length) rest stop

variable {read read' : ℕ → α} {start stop : ℕ}

/-- Items are kept by a change that spares their positions. -/
theorem Holds.congr {items : List α} (h : Holds read start items)
    (hsame : ∀ x, x < start + items.length → read' x = read x) : Holds read' start items := by
  intro i hi
  rw [hsame _ (by omega)]
  exact h i hi

/-- Items that are held are held up to any of them. -/
theorem Holds.of_append {items rest : List α} (h : Holds read start (items ++ rest)) :
    Holds read start items := by
  intro i hi
  have hwhole := h i (by rw [List.length_append]; omega)
  rwa [List.getElem_append_left hi] at hwhole

/-- Items that are held from position zero on are read back. -/
theorem Holds.map_range {items : List α} (h : Holds read 0 items) :
    (List.range items.length).map read = items := by
  apply List.ext_getElem
  · rw [List.length_map, List.length_range]
  · intro i _ hi
    have hitem := h i hi
    rw [Nat.zero_add] at hitem
    rw [List.getElem_map, List.getElem_range, hitem]

/-- Extents are laid forwards. -/
theorem Laid.le {extents : List (ℕ × List α)} (h : Laid read start extents stop) : start ≤ stop := by
  induction extents generalizing start with
  | nil => exact Nat.le_of_eq h.symm
  | cons extent rest ih =>
    obtain ⟨hoffset, -, hrest⟩ := h
    have hle := ih hrest
    omega

/-- Every extent lies between the two positions and holds its items. -/
theorem Laid.mem {extents : List (ℕ × List α)} (h : Laid read start extents stop)
    {extent : ℕ × List α} (hmem : extent ∈ extents) :
    start ≤ extent.1 ∧ extent.1 + extent.2.length ≤ stop ∧ Holds read extent.1 extent.2 := by
  induction extents generalizing start with
  | nil => cases hmem
  | cons head rest ih =>
    obtain ⟨hoffset, hholds, hrest⟩ := h
    rcases List.mem_cons.mp hmem with rfl | hmem
    · exact ⟨hoffset, hrest.le, hholds⟩
    · obtain ⟨hstart, hstop, hitems⟩ := ih hrest hmem
      exact ⟨by omega, hstop, hitems⟩

end Extents
