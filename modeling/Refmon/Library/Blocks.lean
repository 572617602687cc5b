import Mathlib.Data.Fin.Basic
import Mathlib.Tactic.Common

/-!
# A device of blocks, addressed by byte

Blocks of one size follow each other, so that a byte has a position on the whole device.
`store` writes bytes from a position on, across block boundaries, and `fetch` reads them.
-/

namespace Blocks

variable {α : Type*} {size : ℕ}

/-- The byte at a position of the device. -/
def byteAt (hsize : 0 < size) (dev : ℕ → Fin size → α) (position : ℕ) : α :=
  dev (position / size) ⟨position % size, Nat.mod_lt _ hsize⟩

/-- The device after bytes are written from a position on. -/
def store (dev : ℕ → Fin size → α) (start : ℕ) (bytes : List α) : ℕ → Fin size → α := fun block i =>
  if start ≤ block * size + i then bytes.getD (block * size + i - start) (dev block i) else dev block i

/-- The bytes from a position on. -/
def fetch (hsize : 0 < size) (dev : ℕ → Fin size → α) (start count : ℕ) : List α :=
  (List.range count).map fun i => byteAt hsize dev (start + i)

variable (hsize : 0 < size) (dev : ℕ → Fin size → α)

/-- A byte after a write: from the bytes written where they lie, else from before. -/
theorem byteAt_store (start : ℕ) (bytes : List α) (position : ℕ) :
    byteAt hsize (store dev start bytes) position =
      if start ≤ position then bytes.getD (position - start) (byteAt hsize dev position)
      else byteAt hsize dev position := by
  have hposition : position / size * size + position % size = position := Nat.div_add_mod' position size
  simp only [byteAt, store, hposition]

/-- A write leaves the bytes behind it. -/
theorem byteAt_store_behind {start : ℕ} {bytes : List α} {position : ℕ}
    (h : start + bytes.length ≤ position) :
    byteAt hsize (store dev start bytes) position = byteAt hsize dev position := by
  rw [byteAt_store, if_pos (by omega), List.getD_eq_getElem?_getD, List.getElem?_eq_none (by omega)]
  rfl

/-- A part of what was written is read where it lies. -/
theorem fetch_store (start : ℕ) (front bytes rest : List α) :
    fetch hsize (store dev start (front ++ bytes ++ rest)) (start + front.length) bytes.length =
      bytes := by
  apply List.ext_getElem
  · simp [fetch]
  · intro i hi hlt
    have hoffset : start + front.length + i - start = front.length + i := by omega
    simp only [fetch, List.getElem_map, List.getElem_range, byteAt_store]
    rw [if_pos (by omega), hoffset, List.getD_eq_getElem?_getD, List.append_assoc,
      List.getElem?_append_right (by omega), Nat.add_sub_cancel_left, List.getElem?_append_left hlt,
      List.getElem?_eq_getElem hlt]
    rfl

/-- A write leaves what lies before or behind it. -/
theorem fetch_store_apart {start count first : ℕ} {bytes : List α}
    (h : first + count ≤ start ∨ start + bytes.length ≤ first) :
    fetch hsize (store dev start bytes) first count = fetch hsize dev first count := by
  apply List.map_congr_left
  intro i hi
  have hlt := List.mem_range.mp hi
  rw [byteAt_store]
  split
  · rw [List.getD_eq_getElem?_getD, List.getElem?_eq_none (by omega)]
    rfl
  · rfl

end Blocks
