import Refmon.Calls

/-!
# Sanitised user strings

The copy of a user string is made in several reads: `strlen` measures the string, `MATCH_STRING`
compares it with the empty string, and `copy_from_user` copies as many bytes as were measured. Another
thread may write to the string between any two of them. The copy is sound exactly when the string
ends in each of these reads, the last one included.
-/

namespace Refmon

open Wp

section Memory

/-- A string can be measured exactly where memory holds a terminator. -/
theorem exists_strlen_iff (memory : List UInt8) : (∃ n, strlen memory = some n) ↔ 0 ∈ memory := by
  constructor
  · rintro ⟨n, hn⟩
    obtain ⟨s, hs, -⟩ := Option.map_eq_some_iff.mp hn
    obtain ⟨rest, rfl⟩ := cstring_eq_some hs
    simp [CString.mem]
  · intro hmem
    induction memory with
    | nil => cases hmem
    | cons b memory ih =>
      by_cases hb : b = 0
      · exact ⟨0, by simp [strlen, cstring, hb]⟩
      · obtain ⟨n, hn⟩ := ih ((List.mem_cons.mp hmem).resolve_left (Ne.symm hb))
        obtain ⟨s, hs, -⟩ := Option.map_eq_some_iff.mp hn
        exact ⟨s.length + 1, by simp [strlen, cstring, hb, hs]⟩

/-- The empty string starts with its terminator. -/
theorem strlen_eq_zero_iff (memory : List UInt8) : strlen memory = some 0 ↔ memory.head? = some 0 := by
  cases memory with
  | nil => simp [strlen, cstring]
  | cons b memory =>
    by_cases hb : b = 0
    · simp [strlen, cstring, hb]
    · simp [strlen, cstring, hb]

/-- The comparison with the empty string reads one character, if it is asked for any. -/
theorem strncmp_nil_iff (memory : List UInt8) (n : ℕ) {P N : Prop} :
    (∃ c, strncmp memory (CString.mem []) n = some c ∧ if c = 0 then P else N) ↔
      if n = 0 ∨ memory.head? = some 0 then P else memory ≠ [] ∧ N := by
  cases n with
  | zero => simp [strncmp]
  | succ n =>
    cases memory with
    | nil => simp [strncmp]
    | cons b memory =>
      by_cases hb : b = 0
      · simp [strncmp, hb]
      · by_cases hlt : b < 0
        · simp [strncmp, hb, hlt]
        · simp [strncmp, hb, hlt]

end Memory

/-- Two reads of a string, one that measures it and one that compares as many of its characters,
do not tell it from the empty string. -/
def SeemsEmpty (measured compared : List UInt8) : Prop :=
  measured.head? = some 0 ∨ compared.head? = some 0

instance (measured compared : List UInt8) : Decidable (SeemsEmpty measured compared) :=
  inferInstanceAs (Decidable (_ ∨ _))

/-- If memory is allocated at this moment and that many bytes are mapped at the next one, the
string ends within them. -/
def EndsInCopy {δ : Type} (env : Env δ) (region : ℕ → List UInt8) (length moment : ℕ) : Prop :=
  env.kmalloc moment = true → outsize length ≤ (region (moment + 1)).length →
    0 ∈ (region (moment + 1)).take (outsize length)

/-- From a moment on, the string behind a pointer ends wherever the copying function looks for its
end: when it is measured, when it is compared with the empty string, which measures it again if it
seems empty, and when the measured bytes are copied. -/
structure EndsWhenRead {δ : Type} (env : Env δ) (region : ℕ → List UInt8) (moment : ℕ) : Prop where
  measured : 0 ∈ region moment
  again : 0 ∈ region (moment + 1)
  compared : ¬ SeemsEmpty (region (moment + 1)) (region (moment + 2)) → region (moment + 2) ≠ []
  remeasured : SeemsEmpty (region (moment + 1)) (region (moment + 2)) → 0 ∈ region (moment + 3)
  copied : ¬ SeemsEmpty (region (moment + 1)) (region (moment + 2)) →
    ∀ length, strlen (region moment) = some length → EndsInCopy env region length (moment + 3)
  copiedLater : SeemsEmpty (region (moment + 1)) (region (moment + 2)) →
    (region (moment + 3)).head? ≠ some 0 →
    ∀ length, strlen (region moment) = some length → EndsInCopy env region length (moment + 4)

section Reads

variable {δ : Type} {env : Env δ} {region : ℕ → List UInt8} {k : Kernel}

/-- Measuring does not fault where the string ends. -/
theorem wp_userStrlen_iff {Q : ℕ → Kernel → Prop} :
    wp (userStrlen (some region)) Q (fun _ _ => False) k ↔
      ∃ n, strlen (region k.aux.clock) = some n ∧ Q n k.tick := by
  unfold userStrlen
  dsimp only
  rw [wp_bind, wp_ask_iff]
  cases strlen (region k.aux.clock) with
  | none => simp
  | some n => simp

/-- Nor does comparing where the comparison is decided. -/
theorem wp_userStrncmp_iff {Q : ℤ → Kernel → Prop} (str : CString) (n : ℕ) :
    wp (userStrncmp (some region) str n) Q (fun _ _ => False) k ↔
      ∃ c, strncmp (region k.aux.clock) str.mem n = some c ∧ Q c k.tick := by
  unfold userStrncmp
  dsimp only
  rw [wp_bind, wp_ask_iff]
  cases strncmp (region k.aux.clock) str.mem n with
  | none => simp
  | some c => simp

/-- The comparison with the empty string faults unless the string ends in its first read, can be read
in its second, and, if it seems empty by then, ends in its third. -/
theorem wp_userMatchString_nil_iff {Q : Bool → Kernel → Prop} :
    wp (userMatchString (some region) []) Q (fun _ _ => False) k ↔
      0 ∈ region k.aux.clock ∧
        if SeemsEmpty (region k.aux.clock) (region (k.aux.clock + 1)) then
          0 ∈ region (k.aux.clock + 2) ∧
            Q (decide ((region (k.aux.clock + 2)).head? = some 0)) k.tick.tick.tick
        else region (k.aux.clock + 1) ≠ [] ∧ Q false k.tick.tick := by
  have hlast (t : Kernel) : wp (userStrlen (some region)) (fun m => Q (m == ([] : CString).length))
      (fun _ _ => False) t ↔
      0 ∈ region t.aux.clock ∧ Q (decide ((region t.aux.clock).head? = some 0)) t.tick := by
    have hbool (m : ℕ) (hm : strlen (region t.aux.clock) = some m) :
        (m == ([] : CString).length) = decide ((region t.aux.clock).head? = some 0) := by
      rw [Bool.eq_iff_iff, beq_iff_eq, decide_eq_true_iff, ← strlen_eq_zero_iff, hm,
        Option.some.injEq, List.length_nil]
    rw [wp_userStrlen_iff, ← exists_strlen_iff]
    constructor
    · rintro ⟨m, hm, hQ⟩
      rw [hbool m hm] at hQ
      exact ⟨⟨m, hm⟩, hQ⟩
    · rintro ⟨⟨m, hm⟩, hQ⟩
      rw [← hbool m hm] at hQ
      exact ⟨m, hm, hQ⟩
  have hcompare (n : ℕ) : wp (userStrncmp (some region) [] n) (fun c t => wp (if c = 0 then do
        let m ← userStrlen (some region)
        pure (m == ([] : CString).length) else pure false) Q (fun _ _ => False) t)
      (fun _ _ => False) k.tick ↔
      if n = 0 ∨ (region (k.aux.clock + 1)).head? = some 0 then
        0 ∈ region (k.aux.clock + 2) ∧
          Q (decide ((region (k.aux.clock + 2)).head? = some 0)) k.tick.tick.tick
      else region (k.aux.clock + 1) ≠ [] ∧ Q false k.tick.tick := by
    rw [wp_userStrncmp_iff, ← strncmp_nil_iff]
    refine exists_congr fun c => and_congr_right fun _ => ?_
    split
    · rw [wp_bind]
      exact hlast k.tick.tick
    · rfl
  rw [userMatchString, wp_bind, wp_userStrlen_iff, ← exists_strlen_iff]
  simp only [wp_bind, hcompare]
  constructor
  · rintro ⟨n, hn, h⟩
    refine ⟨⟨n, hn⟩, ?_⟩
    simpa only [SeemsEmpty, ← strlen_eq_zero_iff (region k.aux.clock), hn, Option.some.injEq] using h
  · rintro ⟨⟨n, hn⟩, h⟩
    refine ⟨n, hn, ?_⟩
    simpa only [SeemsEmpty, ← strlen_eq_zero_iff (region k.aux.clock), hn, Option.some.injEq] using h

/-- The copy is a buffer of the allocated size that holds a terminator, if there is a copy. -/
theorem wp_copy_iff (length : ℕ) :
    wp (do
        let safeOutput ← kmalloc env
        if safeOutput = false then pure none else copyFromUser (some region) (outsize length))
      (fun out _ => ∀ buffer, out = some buffer → buffer.length = outsize length ∧ 0 ∈ buffer)
      (fun _ _ => False) k ↔ EndsInCopy env region length k.aux.clock := by
  rw [wp_bind, kmalloc, wp_ask_iff, EndsInCopy]
  cases env.kmalloc k.aux.clock with
  | false => simp
  | true =>
    have htick : k.tick.aux.clock = k.aux.clock + 1 := rfl
    rw [if_neg Bool.true_eq_false.mp, copyFromUser, wp_bind, wp_ask_iff, htick]
    split
    · rename_i hle
      rw [wp_pure]
      constructor
      · intro h _ _
        exact (h _ rfl).2
      · intro h buffer hbuffer
        rw [← Option.some.inj hbuffer]
        exact ⟨List.length_take_of_le hle, h rfl hle⟩
    · rename_i hshort
      simp [hshort]

end Reads

/-- What is relied on: a call that does not fault, and gives nothing or a buffer of the allocated
size that holds a terminator. -/
def Sanitises {δ : Type} (env : Env δ) (user : UserPtr) (k : Kernel) : Prop :=
  wp (sanitizeUserInputAlloc env user)
    (fun out _ => ∀ buffer, out = some buffer → ∃ region length, user = some region ∧
      strlen (region k.aux.clock) = some length ∧ buffer.length = outsize length ∧ 0 ∈ buffer)
    (fun _ _ => False) k

section

variable {δ : Type} {env : Env δ} {k : Kernel}

/-- The copy is well formed exactly when the pointer is not `NULL` and its string ends in every
read. -/
theorem sanitises_iff_endsWhenRead {user : UserPtr} :
    Sanitises env user k ↔ ∃ region, user = some region ∧ EndsWhenRead env region k.aux.clock := by
  cases user with
  | none =>
    constructor
    · intro h
      exact h.elim
    · rintro ⟨region, hregion, -⟩
      cases hregion
  | some region =>
    have hrun : Sanitises env (some region) k ↔ ∃ length, strlen (region k.aux.clock) = some length ∧
        wp (do
            let empty ← userMatchString (some region) []
            if empty then pure none
            else do
              let safeOutput ← kmalloc env
              if safeOutput = false then pure none else copyFromUser (some region) (outsize length))
          (fun out _ => ∀ buffer, out = some buffer → buffer.length = outsize length ∧ 0 ∈ buffer)
          (fun _ _ => False) k.tick := by
      rw [Sanitises, sanitizeUserInputAlloc_some, wp_bind, wp_userStrlen_iff]
      refine exists_congr fun length => and_congr_right fun hlength => ?_
      have hQ (out : Option (List UInt8)) :
          (∀ buffer, out = some buffer → ∃ region' length', some region = some region' ∧
            strlen (region' k.aux.clock) = some length' ∧ buffer.length = outsize length' ∧ 0 ∈ buffer) ↔
          ∀ buffer, out = some buffer → buffer.length = outsize length ∧ 0 ∈ buffer := by
        simp [hlength]
      simp only [hQ]
    have hend (length : ℕ) (empty : Bool) (t : Kernel) : wp (if empty then pure none else do
          let safeOutput ← kmalloc env
          if safeOutput = false then pure none else copyFromUser (some region) (outsize length))
        (fun out _ => ∀ buffer, out = some buffer → buffer.length = outsize length ∧ 0 ∈ buffer)
        (fun _ _ => False) t ↔ (empty = false → EndsInCopy env region length t.aux.clock) := by
      cases empty with
      | true => simp
      | false =>
        rw [if_neg Bool.false_ne_true, wp_copy_iff]
        exact ⟨fun h _ => h, fun h => h rfl⟩
    have hmoment (m : ℕ) : k.aux.clock + 1 + m = k.aux.clock + (1 + m) := add_assoc _ _ _
    rw [hrun]
    simp only [wp_bind, wp_userMatchString_nil_iff, hend, Kernel.tick_clock, decide_eq_false_iff_not,
      hmoment, Nat.reduceAdd, true_implies]
    constructor
    · rintro ⟨length, hlength, hagain, h⟩
      refine ⟨region, rfl, (exists_strlen_iff _).mp ⟨length, hlength⟩, hagain, ?_, ?_, ?_, ?_⟩
      · intro hseems
        rw [if_neg hseems] at h
        exact h.1
      · intro hseems
        rw [if_pos hseems] at h
        exact h.1
      · intro hseems length' hlength'
        rw [if_neg hseems] at h
        rw [Option.some.inj (hlength'.symm.trans hlength)]
        exact h.2
      · intro hseems hne length' hlength'
        rw [if_pos hseems] at h
        rw [Option.some.inj (hlength'.symm.trans hlength)]
        exact h.2 hne
    · rintro ⟨region', hregion, h⟩
      cases hregion
      obtain ⟨length, hlength⟩ := (exists_strlen_iff _).mpr h.measured
      refine ⟨length, hlength, h.again, ?_⟩
      split
      · rename_i hseems
        exact ⟨h.remeasured hseems, fun hne => h.copiedLater hseems hne length hlength⟩
      · rename_i hseems
        exact ⟨h.compared hseems, h.copied hseems length hlength⟩

/-- The callers that find no copy in the state `k` and go on from `t` return `-EINVAL`: the password
check, and the two calls that copy a path after their checks. -/
structure CallersRefuse (env : Env δ) (user : UserPtr) (k t : Kernel) : Prop where
  check : env.euid = GLOBAL_ROOT_UID → isReconf k.core.theInstance = true →
    safetyChecks env reconfChecks user k = .ok (-EINVAL) t
  add : ∀ (passwordIn : UserPtr) (start : Kernel), start.lock = false →
    safetyChecks env reconfChecks passwordIn start.locked = .ok 0 k →
    doReconfAdd env user passwordIn start = .ok (-EINVAL) t.unlocked
  rm : ∀ (passwordIn : UserPtr) (start : Kernel), start.lock = false →
    safetyChecks env reconfChecks passwordIn start.locked = .ok 0 k →
    doReconfRm env user passwordIn start = .ok (-EINVAL) t.unlocked

/-- Taking a free lock. -/
theorem spinInstanceLock_of_free (h : k.lock = false) : spinInstanceLock k = .ok ⟨⟩ k.locked := by
  rw [spinInstanceLock, h]
  rfl

theorem callersRefuse_of_none {user : UserPtr} {t : Kernel}
    (h : sanitizeUserInputAlloc env user k = .ok none t) : CallersRefuse env user k t := by
  constructor
  · intro hroot hreconf
    have hgets : gets (fun core => isReconf core.theInstance) k = .ok true k := by
      rw [← hreconf]
      rfl
    rw [safetyChecks_reconf, if_neg (not_not.mpr hroot), bind_of_ok hgets, if_neg Bool.true_eq_false.mp,
      passwordCheck, bind_of_ok h]
    rfl
  · intro passwordIn start hfree hchecks
    rw [doReconfAdd, bind_of_ok (spinInstanceLock_of_free hfree), bind_of_ok hchecks,
      if_neg (not_not.mpr rfl), bind_of_ok h]
    rfl
  · intro passwordIn start hfree hchecks
    rw [doReconfRm, bind_of_ok (spinInstanceLock_of_free hfree), bind_of_ok hchecks,
      if_neg (not_not.mpr rfl), bind_of_ok h]
    rfl

/-- A string that is not written to, and whose length is an `int` with its terminator, ends in
every read. -/
theorem endsWhenRead_of_readsFrom {region : ℕ → List UInt8} {moment : ℕ} {s : CString}
    (h : ReadsFrom moment (some region) s) (hshort : s.length < INT_MAX) :
    EndsWhenRead env region moment := by
  have hreads (n : ℕ) : ∃ rest, region (moment + n) = s.mem ++ rest := by
    obtain ⟨region', hregion, hall⟩ := h
    cases hregion
    exact hall (moment + n) (Nat.le_add_right _ _)
  have hmem (n : ℕ) : 0 ∈ region (moment + n) := by
    obtain ⟨rest, hrest⟩ := hreads n
    rw [hrest]
    simp [CString.mem]
  have hcopy (n length : ℕ) (hlength : strlen (region moment) = some length) :
      EndsInCopy env region length (moment + n) := by
    intro _ _
    obtain ⟨rest₀, hrest₀⟩ := hreads 0
    obtain ⟨rest, hrest⟩ := hreads (n + 1)
    rw [add_zero] at hrest₀
    rw [hrest₀, strlen_mem_append, Option.some.injEq] at hlength
    rw [← hlength, add_assoc, hrest, outsize_of_lt hshort, ← exists_strlen_iff, strlen,
      cstring_take_mem, if_pos (Nat.lt_succ_self _)]
    exact ⟨s.length, rfl⟩
  constructor
  · exact hmem 0
  · exact hmem 1
  · intro _
    exact List.ne_nil_of_mem (hmem 2)
  · intro _
    exact hmem 3
  · intro _
    exact hcopy 3
  · intro _ _
    exact hcopy 4

/-- The copy of a user string is well formed exactly when the pointer is not `NULL` and the string
ends in every read, and without a copy every caller returns `-EINVAL`. -/
theorem sanitises_iff (env : Env δ) (user : UserPtr) (k : Kernel) :
    (Sanitises env user k ↔ ∃ region, user = some region ∧ EndsWhenRead env region k.aux.clock) ∧
      ∀ t, sanitizeUserInputAlloc env user k = .ok none t → CallersRefuse env user k t :=
  ⟨sanitises_iff_endsWhenRead, fun _ => callersRefuse_of_none⟩

/-- A pointer to `a`, where another thread writes `bc` once the string has been measured. -/
def overwritten : UserPtr := some fun n => if n < 4 then [97, 0, 0, 0] else [98, 99, 0, 0]

/-- `NULL` is handed to `strlen`, and the copy of a string that is written to in between need not
hold a terminator. -/
theorem not_sanitises :
    ¬ Sanitises (rootOnly.calm ciaoSha256) none inserted ∧
      returned (sanitizeUserInputAlloc (rootOnly.calm ciaoSha256) overwritten inserted) =
        some (some [98, 99]) ∧
      ¬ Sanitises (rootOnly.calm ciaoSha256) overwritten inserted := by
  have hcopy : returned (sanitizeUserInputAlloc (rootOnly.calm ciaoSha256) overwritten inserted) =
      some (some [98, 99]) := by
    decide +kernel
  refine ⟨fun h => h, hcopy, fun h => ?_⟩
  obtain ⟨region, length, -, -, -, hterminator⟩ := wp_ok h (returned_eq_some hcopy) _ rfl
  exact absurd hterminator (by decide)

end

end Refmon
