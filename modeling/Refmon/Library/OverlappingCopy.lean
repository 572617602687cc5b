import Refmon.Library.Extents
import Mathlib.Logic.Function.Basic

/-!
# Copies within one memory

Items are copied forwards, one after the other and up to a terminator, to a place that does not lie
behind the one they are read from. The two places may overlap: what has been overwritten has been
read before.
-/

namespace OverlappingCopy

open Extents

variable {α : Type*} [DecidableEq α]

/-- The copy of the items from `src` on to `dst`, up to a terminator that is expected among the next
`left` items: the position behind the copy, and the memory. Nothing is written at the limit or behind
it. -/
def copyUntil (stop : α) (limit : ℕ) : ℕ → (ℕ → α) → ℕ → ℕ → Option (ℕ × (ℕ → α))
  | 0, _, _, _ => none
  | left + 1, mem, src, dst =>
    if mem src = stop then some (dst, mem)
    else
      let mem' := if dst < limit then Function.update mem dst (mem src) else mem
      copyUntil stop limit left mem' (src + 1) (dst + 1)

/-- Items that are copied forwards arrive as they were, and nothing else changes. The induction is on
the items: those not yet read lie behind what has been written. -/
theorem copyUntil_forwards {stop : α} {limit left src dst : ℕ} {mem : ℕ → α} {items : List α}
    (hle : dst ≤ src) (hholds : Holds mem src (items ++ [stop])) (hstop : stop ∉ items)
    (hleft : items.length < left) (hlimit : dst + items.length ≤ limit) :
    ∃ mem', copyUntil stop limit left mem src dst = some (dst + items.length, mem') ∧
      Holds mem' dst items ∧ ∀ i, i < dst ∨ dst + items.length ≤ i → mem' i = mem i := by
  induction items generalizing left src dst mem with
  | nil =>
    have hread : mem src = stop := by
      have hfirst := hholds 0 (by simp)
      simpa using hfirst
    obtain ⟨left, rfl⟩ := Nat.exists_eq_add_of_lt hleft
    refine ⟨mem, ?_, fun i hi => absurd hi (Nat.not_lt_zero i), fun _ _ => rfl⟩
    rw [List.length_nil, Nat.zero_add, copyUntil, if_pos hread]
    rfl
  | cons item items ih =>
    rw [List.length_cons] at hleft hlimit
    have hread : mem src = item := by
      have hfirst := hholds 0 (by simp)
      simpa using hfirst
    have hne : ¬ mem src = stop := by
      intro heq
      rw [heq] at hread
      exact hstop (hread ▸ List.mem_cons_self)
    have hrest : Holds (Function.update mem dst (mem src)) (src + 1) (items ++ [stop]) := by
      intro i hi
      have hnext := hholds (i + 1) (by simpa using hi)
      rw [Function.update_of_ne (by omega), Nat.add_assoc, Nat.add_comm 1 i]
      simpa using hnext
    cases left with
    | zero => omega
    | succ left =>
      have hlimit' : dst + 1 + items.length ≤ limit := by omega
      obtain ⟨mem', hcopy, harrived, hframe⟩ := ih (Nat.add_le_add_right hle 1) hrest
        (fun hmem => hstop (List.mem_cons_of_mem _ hmem)) (Nat.lt_of_succ_lt_succ hleft) hlimit'
      refine ⟨mem', ?_, ?_, ?_⟩
      · rw [copyUntil, if_neg hne, if_pos (by omega)]
        dsimp only
        rw [hcopy, List.length_cons, Nat.add_assoc, Nat.add_comm 1]
      · intro i hi
        cases i with
        | zero =>
          have hkept := hframe dst (Or.inl (Nat.lt_succ_self dst))
          rw [Function.update_self, hread] at hkept
          simpa using hkept
        | succ i =>
          have hitem := harrived i (by simpa using hi)
          rw [Nat.add_assoc, Nat.add_comm 1 i] at hitem
          simpa using hitem
      · intro i hi
        rw [List.length_cons] at hi
        rw [hframe i (by omega), Function.update_of_ne (by omega)]

end OverlappingCopy
