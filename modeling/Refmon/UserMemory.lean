import Refmon.Kernel

/-!
# String functions applied to a user pointer

Every read of user memory is a separate fetch: `MATCH_STRING` on a user pointer measures
the string, compares it and measures it again, and another thread may write in between.
`ReadsFrom` states that nobody does, from a given moment on.
-/

namespace Refmon

open Wp

/-- `strlen` of a user pointer. -/
def userStrlen : UserPtr → K ℕ
  | none => throw .nullDeref
  | some region => do
    match strlen (← ask region) with
    | none => throw .userFault
    | some n => pure n

/-- `strncmp` of a user pointer with a kernel string. -/
def userStrncmp (user : UserPtr) (str : CString) (n : ℕ) : K ℤ :=
  match user with
  | none => throw .nullDeref
  | some region => do
    match strncmp (← ask region) str.mem n with
    | none => throw .userFault
    | some c => pure c

/-- `MATCH_STRING` of a user pointer with a kernel string: up to three fetches. -/
def userMatchString (user : UserPtr) (str : CString) : K Bool := do
  let n ← userStrlen user
  let c ← userStrncmp user str n
  if c = 0 then do
    let m ← userStrlen user
    pure (m == str.length)
  else pure false

/-- From the moment `start` on, every read of the pointer sees the string `s`. -/
def ReadsFrom (start : ℕ) (user : UserPtr) (s : CString) : Prop :=
  ∃ region, user = some region ∧ ∀ n, start ≤ n → ∃ rest, region n = s.mem ++ rest

/-- Nobody writes to the string behind the pointer. -/
def PointsTo (user : UserPtr) (s : CString) : Prop := ReadsFrom 0 user s

/-- Nobody writes to the memory behind the pointer, whatever it holds. -/
def UserPtr.Stable (user : UserPtr) : Prop :=
  ∀ region, user = some region → ∀ m n, region m = region n

/-- Stable memory holds one string for ever, or none. -/
theorem UserPtr.Stable.cases {user : UserPtr} (h : user.Stable) :
    (∃ s, PointsTo user s) ∨ user = none ∨
      ∃ region, user = some region ∧ ∀ n, cstring (region n) = none := by
  cases user with
  | none => exact Or.inr (Or.inl rfl)
  | some region =>
    have hconst := h region rfl
    cases hread : cstring (region 0) with
    | none => exact Or.inr (Or.inr ⟨region, rfl, fun n => by rw [hconst n 0, hread]⟩)
    | some s =>
      obtain ⟨rest, hrest⟩ := cstring_eq_some hread
      exact Or.inl ⟨s, region, rfl, fun n _ => ⟨rest, by rw [hconst n 0, hrest]⟩⟩

/-- Agreement from one moment on is agreement from any later one. -/
theorem ReadsFrom.later {start later : ℕ} {user : UserPtr} {s : CString}
    (h : ReadsFrom start user s) (hle : start ≤ later) : ReadsFrom later user s := by
  obtain ⟨region, huser, hreads⟩ := h
  exact ⟨region, huser, fun n hn => hreads n (hle.trans hn)⟩

/-- A stable buffer is stable from every moment on. -/
theorem PointsTo.from {user : UserPtr} {s : CString} (h : PointsTo user s) (start : ℕ) :
    ReadsFrom start user s := h.later (Nat.zero_le start)

section Moves

variable (user : UserPtr) (str : CString) (n : ℕ)

variable {R : Kernel → Kernel → Prop} (h : Steady R)

include h

theorem Steady.moves_userStrlen : Moves R (userStrlen user) := by
  cases user with
  | none => exact Moves.throw h.refl _
  | some region =>
    refine Moves.bind h.trans (h.returns_ask _).moves fun m => ?_
    cases strlen m with
    | none => exact Moves.throw h.refl _
    | some n => exact Moves.pure h.refl _

theorem Steady.moves_userStrncmp : Moves R (userStrncmp user str n) := by
  cases user with
  | none => exact Moves.throw h.refl _
  | some region =>
    refine Moves.bind h.trans (h.returns_ask _).moves fun m => ?_
    cases strncmp m str.mem n with
    | none => exact Moves.throw h.refl _
    | some c => exact Moves.pure h.refl _

theorem Steady.moves_userMatchString : Moves R (userMatchString user str) := by
  refine Moves.bind h.trans (h.moves_userStrlen user) fun n => ?_
  refine Moves.bind h.trans (h.moves_userStrncmp user str n) fun c => ?_
  refine Moves.ite ?_ (Moves.pure h.refl _)
  exact Moves.bind h.trans (h.moves_userStrlen user) fun _ => Moves.pure h.refl _

omit h

theorem moves_userMatchString : Moves Same (userMatchString user str) :=
  Same.steady.moves_userMatchString user str

end Moves

section Stable

variable {user : UserPtr} {s : CString} {k : Kernel} {E : Fault → Kernel → Prop}

/-- The length of a string nobody writes to. -/
theorem wp_userStrlen (h : ReadsFrom k.aux.clock user s) :
    wp (userStrlen user) (fun n t => n = s.length ∧ Same k t) E k := by
  obtain ⟨region, rfl, hreads⟩ := h
  obtain ⟨rest, hrest⟩ := hreads k.aux.clock le_rfl
  rw [userStrlen, wp_bind]
  refine wp_ask fun t ht => ?_
  rw [hrest, strlen_mem_append]
  exact ⟨rfl, ht⟩

/-- The comparison of a string nobody writes to is the comparison of kernel strings. -/
theorem wp_userStrncmp (str : CString) (n : ℕ) (h : ReadsFrom k.aux.clock user s) :
    wp (userStrncmp user str n) (fun c t => (c = 0 ↔ s.take n = str.take n) ∧ Same k t) E k := by
  obtain ⟨region, rfl, hreads⟩ := h
  obtain ⟨rest, hrest⟩ := hreads k.aux.clock le_rfl
  obtain ⟨c, hc⟩ := strncmp_mem_isSome s str rest n
  rw [userStrncmp, wp_bind]
  refine wp_ask fun t ht => ?_
  rw [hrest, hc]
  refine ⟨?_, ht⟩
  rw [← strncmp_eq_zero_iff s str rest n, hc, Option.some.injEq]

/-- Without interference the macro decides equality. -/
theorem wp_userMatchString (str : CString) (h : ReadsFrom k.aux.clock user s) :
    wp (userMatchString user str) (fun b t => (b = true ↔ s = str) ∧ Same k t) E k := by
  rw [userMatchString, wp_bind]
  refine wp_mono (wp_userStrlen h) ?_ fun _ _ hE => hE
  rintro n t ⟨rfl, ht⟩
  rw [wp_bind]
  refine wp_mono (wp_userStrncmp str s.length (h.later ht.clock)) ?_ fun _ _ hE => hE
  rintro c u ⟨hc, hu⟩
  have hku := Same.trans _ _ _ ht hu
  split
  · rename_i hzero
    rw [wp_bind]
    refine wp_mono (wp_userStrlen (h.later hku.clock)) ?_ fun _ _ hE => hE
    rintro m v ⟨rfl, hv⟩
    refine ⟨?_, Same.trans _ _ _ hku hv⟩
    rw [beq_iff_eq, ← take_eq_and_length_eq_iff, ← hc]
    exact ⟨fun hlen => ⟨hzero, hlen⟩, fun hboth => hboth.2⟩
  · rename_i hne
    refine ⟨?_, hku⟩
    rw [← take_eq_and_length_eq_iff, ← hc]
    exact ⟨fun hfalse => (Bool.false_ne_true hfalse).elim, fun hboth => absurd hboth.1 hne⟩

end Stable

end Refmon
