import Mathlib.Tactic.Common

/-!
# Reading until nothing is left

A reader gives, for a count and a state, some items and the next state. `ReadsAll` says that reads
with the counts of a sequence, one after the other, end with one that gives nothing, each of the
others giving something and no more than was asked for, and what they give together. A reader that
serves the items behind a position gives all of them, whatever the counts.
-/

namespace ReadLoop

variable {α σ ε : Type*} (read : ℕ → σ → Except ε (List α × σ))

/-- The reads with these counts, from the `n`-th on, end, and give these items together. -/
inductive ReadsAll (counts : ℕ → ℕ) : ℕ → σ → List α → Prop
  | done {n : ℕ} {s s' : σ} : read (counts n) s = .ok ([], s') → ReadsAll counts n s []
  | more {n : ℕ} {s s' : σ} {chunk rest : List α} : read (counts n) s = .ok (chunk, s') → chunk ≠ [] →
      chunk.length ≤ counts n → ReadsAll counts (n + 1) s' rest → ReadsAll counts n s (chunk ++ rest)

/-- For every admitted count, the reader gives the next items of the data, at least one if there is
one and no more than the count, and moves its position behind them. -/
def Serves (admits : ℕ → Prop) (data : List α) (position : σ → ℕ) : Prop :=
  ∀ count s, admits count → ∃ chunk s', read count s = .ok (chunk, s') ∧
    chunk = (data.drop (position s)).take chunk.length ∧ chunk.length ≤ count ∧
    (position s < data.length → chunk ≠ []) ∧ position s' = position s + chunk.length

variable {read} {counts : ℕ → ℕ}

/-- Reads with the same counts from the same state give the same items. -/
theorem ReadsAll.unique {n : ℕ} {s : σ} {out out' : List α} (h : ReadsAll read counts n s out)
    (h' : ReadsAll read counts n s out') : out = out' := by
  induction h generalizing out' with
  | done hread =>
    cases h' with
    | done _ => rfl
    | more hread' hne _ _ =>
      cases hread.symm.trans hread'
      exact absurd rfl hne
  | more hread hne _ _ ih =>
    cases h' with
    | done hread' =>
      cases hread.symm.trans hread'
      exact absurd rfl hne
    | more hread' _ _ hrest' =>
      cases hread.symm.trans hread'
      rw [ih hrest']

/-- A serving reader gives everything behind its position. -/
theorem Serves.readsAll {admits : ℕ → Prop} {data : List α} {position : σ → ℕ}
    (h : Serves read admits data position) (hcounts : ∀ n, admits (counts n)) (n : ℕ) (s : σ) :
    ReadsAll read counts n s (data.drop (position s)) := by
  generalize hleft : data.length - position s = left
  induction left using Nat.strongRecOn generalizing n s with
  | ind left ih =>
    obtain ⟨chunk, s', hread, hchunk, hcount, hsome, hmoved⟩ := h (counts n) s (hcounts n)
    by_cases hend : position s < data.length
    · have hne := hsome hend
      have hpos := List.length_pos_iff.mpr hne
      have hrest := ih (data.length - position s') (by omega) (n + 1) s' rfl
      have hsplit : data.drop (position s) = chunk ++ data.drop (position s') := by
        rw [hmoved, ← List.drop_drop]
        conv_lhs => rw [← List.take_append_drop chunk.length (data.drop (position s)), ← hchunk]
      rw [hsplit]
      exact .more hread hne hcount hrest
    · have hnil : data.drop (position s) = [] := List.drop_eq_nil_of_le (by omega)
      rw [hnil, List.take_nil] at hchunk
      rw [hchunk] at hread
      rw [hnil]
      exact .done hread

end ReadLoop
