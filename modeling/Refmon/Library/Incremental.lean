import Mathlib.Data.List.Basic
import Mathlib.Tactic.Common

/-!
# Hashes that are computed piece by piece

A hasher takes its input in pieces. When an update with two pieces one after the other is the update
with both together, the hash depends on the input only, not on how it was cut.
-/

namespace Incremental

variable {α σ δ : Type*}

/-- A hasher: its state at the beginning, the state after a piece of the input, and the hash. -/
structure Hasher (α σ δ : Type*) where
  init : σ
  update : σ → List α → σ
  final : σ → δ

/-- The hash of an input that is taken in one piece. -/
def Hasher.hash (h : Hasher α σ δ) (input : List α) : δ := h.final (h.update h.init input)

/-- Updates compose over concatenation. -/
structure Hasher.Streams (h : Hasher α σ δ) : Prop where
  update_nil : ∀ s, h.update s [] = s
  update_append : ∀ s first rest, h.update s (first ++ rest) = h.update (h.update s first) rest

variable {h : Hasher α σ δ}

/-- The state after some pieces is the state after their concatenation. -/
theorem Hasher.Streams.foldl_update (hstreams : h.Streams) (pieces : List (List α)) (s : σ) :
    pieces.foldl h.update s = h.update s pieces.flatten := by
  induction pieces generalizing s with
  | nil => exact (hstreams.update_nil s).symm
  | cons piece pieces ih => rw [List.foldl_cons, ih, List.flatten_cons, hstreams.update_append]

/-- The hash of an input is found piece by piece. -/
theorem Hasher.Streams.final_foldl (hstreams : h.Streams) (pieces : List (List α)) :
    h.final (pieces.foldl h.update h.init) = h.hash pieces.flatten := by
  rw [hstreams.foldl_update, Hasher.hash]

/-- The hasher that collects its input. -/
def collecting (f : List α → δ) : Hasher α (List α) δ := ⟨[], fun collected piece => collected ++ piece, f⟩

theorem collecting_streams (f : List α → δ) : (collecting f).Streams :=
  ⟨List.append_nil, fun collected first rest => (List.append_assoc collected first rest).symm⟩

/-- Every function is the hash of the hasher that collects its input. -/
@[simp] theorem collecting_hash (f : List α → δ) (input : List α) : (collecting f).hash input = f input := rfl

end Incremental
