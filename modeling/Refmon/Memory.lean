import Refmon.Library.Extents
import Mathlib.Data.List.GetD

/-!
# Buffers in memory

A buffer is memory from its start on. Bytes that are written replace what was there, and everything
else stays.
-/

namespace Refmon

open Extents

/-- Memory from the start of a buffer on. -/
abbrev Memory := ℕ → UInt8

/-- Memory after bytes are written from a position on. -/
def Memory.write (out : Memory) (start : ℕ) (bytes : List UInt8) : Memory := fun i =>
  if start ≤ i ∧ i < start + bytes.length then bytes.getD (i - start) 0 else out i

/-- The first bytes of a buffer. -/
def Memory.region (out : Memory) (size : ℕ) : List UInt8 := (List.range size).map out

variable {out : Memory} {start : ℕ}

theorem write_of_ge (bytes : List UInt8) {i : ℕ} (h : start + bytes.length ≤ i) :
    out.write start bytes i = out i :=
  if_neg (by omega)

/-- Bytes that are written are there. -/
theorem write_holds (out : Memory) (start : ℕ) (bytes : List UInt8) :
    Holds (out.write start bytes) start bytes := by
  intro i hi
  rw [Memory.write, if_pos (by omega), Nat.add_sub_cancel_left, List.getD_eq_getElem _ _ hi]

/-- Bytes that are written behind others leave these. -/
theorem holds_write {text : List UInt8} (h : Holds out 0 text) (bytes : List UInt8) :
    Holds (out.write text.length bytes) 0 (text ++ bytes) := by
  intro i hi
  rw [List.length_append] at hi
  rw [Nat.zero_add, Memory.write]
  rcases Nat.lt_or_ge i text.length with hlt | hge
  · rw [if_neg (by omega), List.getElem_append_left hlt, ← h i hlt, Nat.zero_add]
  · rw [if_pos ⟨hge, hi⟩, List.getElem_append_right hge, List.getD_eq_getElem]

/-- A region begins with what is held there. -/
theorem region_of_holds {text : List UInt8} (h : Holds out 0 text) {size : ℕ} (hsize : text.length ≤ size) :
    ∃ rest, out.region size = text ++ rest := by
  refine ⟨(out.region size).drop text.length, ?_⟩
  conv_lhs => rw [← List.take_append_drop text.length (out.region size)]
  congr 1
  rw [Memory.region, ← List.map_take, List.take_range, Nat.min_eq_left hsize, h.map_range]

end Refmon
