import Refmon.SyscallHandlers

/-!
# What a passed check proves

The checks change nothing that lasts. When `safety_checks` accepts a reconfiguration call,
the caller is root, the state allows reconfiguration, and the SHA-256 digest of the supplied
password is the stored one; conversely, such a call is accepted unless a resource is missing.
-/

namespace Refmon

open Wp

/-- The largest `int`. -/
def INT_MAX : ℕ := 2 ^ 31 - 1

section Buffers

/-- A prefix of a terminated string holds the string if it reaches the terminator, and no
string otherwise. -/
theorem cstring_take_mem (s : CString) (rest : List UInt8) (n : ℕ) :
    cstring ((s.mem ++ rest).take n) = if s.length < n then some s else none := by
  induction s generalizing n with
  | nil => cases n <;> simp [cstring]
  | cons c s ih =>
    cases n with
    | zero => simp [cstring]
    | succ n =>
      simp only [CString.mem_cons, List.cons_append, List.take_succ_cons, cstring, dif_neg c.property,
        ih, List.length_cons, Nat.add_lt_add_iff_right]
      split <;> rfl

/-- `strlen(unsafe_input) + 1`, as the size of an allocation and of a copy. -/
def outsize (length : ℕ) : ℕ := (Int.bmod (length + 1) (2 ^ 32) % 2 ^ 64).toNat

/-- A string shorter than `INT_MAX` has a length whose successor is an `int`. -/
theorem outsize_of_lt {n : ℕ} (h : n < INT_MAX) : outsize n = n + 1 := by
  unfold INT_MAX at h
  change (Int.bmod (n + 1) (2 ^ 32) % 2 ^ 64).toNat = n + 1
  have hbmod : Int.bmod ((n : ℤ) + 1) (2 ^ 32) = n + 1 := by
    apply Int.bmod_eq_of_le <;> omega
  rw [hbmod]
  omega

end Buffers

section

variable {δ : Type} (env : Env δ)

section Steady

variable {R : Kernel → Kernel → Prop} (h : Steady R)

include h

theorem Steady.moves_copyFromUser (user : UserPtr) (size : ℕ) : Moves R (copyFromUser user size) := by
  cases user with
  | none => exact Moves.throw h.refl _
  | some region =>
    exact Moves.bind h.trans (h.returns_ask _).moves fun _ =>
      Moves.ite (Moves.pure h.refl _) (Moves.pure h.refl _)

theorem Steady.moves_readBuffer (buffer : List UInt8) : Moves R (readBuffer buffer) := by
  unfold readBuffer
  cases cstring buffer with
  | none => exact Moves.throw h.refl _
  | some str => exact Moves.pure h.refl _

theorem Steady.moves_sanitizeUserInputAlloc (user : UserPtr) :
    Moves R (sanitizeUserInputAlloc env user) := by
  have hnone : Moves R (pure none : K (Option (List UInt8))) := Moves.pure h.refl _
  refine Moves.bind h.trans (h.moves_userStrlen user) fun length => Moves.ite hnone ?_
  refine Moves.bind h.trans (h.moves_userMatchString user []) fun empty => Moves.ite hnone ?_
  refine Moves.bind h.trans (h.returns_ask _).moves fun output => Moves.ite hnone ?_
  exact h.moves_copyFromUser user _

theorem Steady.moves_matchPassword (str : CString) : Moves R (matchPassword env str) := by
  refine Moves.bind h.trans (h.returns_gets _).moves fun password => ?_
  refine Moves.bind h.trans (h.moves_hashgenStr env str) fun str1 => ?_
  refine Moves.bind h.trans (h.moves_hashgenStr env str) fun measured => ?_
  cases str1 with
  | none => exact Moves.throw h.refl _
  | some str1 =>
    cases measured with
    | none => exact Moves.throw h.refl _
    | some measured =>
      cases password with
      | none => exact Moves.throw h.refl _
      | some password =>
        refine Moves.ite ?_ (Moves.pure h.refl _)
        refine Moves.bind h.trans (h.moves_hashgenStr env str) fun again => ?_
        cases again with
        | none => exact Moves.throw h.refl _
        | some again => exact Moves.pure h.refl _

theorem Steady.moves_passwordCheck (arg : UserPtr) : Moves R (passwordCheck env arg) := by
  refine Moves.bind h.trans (h.moves_sanitizeUserInputAlloc env arg) fun out => ?_
  cases out with
  | none => exact Moves.pure h.refl _
  | some buffer =>
    refine Moves.bind h.trans (h.moves_readBuffer buffer) fun safePassword => ?_
    exact Moves.bind h.trans (h.moves_matchPassword env safePassword) fun _ =>
      Moves.ite (Moves.pure h.refl _) (Moves.pure h.refl _)

end Steady

theorem moves_sanitizeUserInputAlloc (user : UserPtr) :
    Moves Same (sanitizeUserInputAlloc env user) := Same.steady.moves_sanitizeUserInputAlloc env user

/-- The comparison succeeds only on the digest behind the stored password. -/
theorem wp_matchPassword {k : Kernel} (str : CString) :
    wp (matchPassword env str)
      (fun same t => (same = true → k.core.theInstance.password =
        some (hexconv (env.sha256 str.bytes))) ∧ Same k t)
      (fun _ t => Same k t) k := by
  rw [matchPassword, wp_bind, wp_gets, wp_bind]
  refine wp_mono (wp_hashgenStr str) ?_ fun _ _ h => h.2
  rintro str1 t₁ ⟨hstr1, h₁⟩
  rw [wp_bind]
  refine wp_mono (wp_hashgenStr str) ?_ fun _ _ h => Same.trans _ _ _ h₁ h.2
  rintro measured t₂ ⟨hmeasured, h₂⟩
  have k₂ := Same.trans _ _ _ h₁ h₂
  rcases hstr1 with rfl | ⟨rfl, -⟩
  on_goal 2 => exact k₂
  rcases hmeasured with rfl | ⟨rfl, -⟩
  on_goal 2 => exact k₂
  cases hpassword : k.core.theInstance.password with
  | none => exact k₂
  | some password =>
    dsimp only
    split
    · rename_i hcmp
      rw [wp_bind]
      refine wp_mono (wp_hashgenStr str) ?_ fun _ _ h => Same.trans _ _ _ k₂ h.2
      rintro again t₃ ⟨hagain, h₃⟩
      have k₃ := Same.trans _ _ _ k₂ h₃
      rcases hagain with rfl | ⟨rfl, -⟩
      · refine ⟨fun hlen => ?_, k₃⟩
        have htake := (strncmp_eq_zero_iff _ password [] _).mp (by rwa [List.append_nil])
        exact congrArg some
          ((take_eq_and_length_eq_iff _ _).mp ⟨htake, beq_iff_eq.mp hlen⟩).symm
      · exact k₃
    · exact ⟨fun hfalse => (Bool.false_ne_true hfalse).elim, k₂⟩

/-- The right password is recognised when every step of the hashing succeeds. -/
theorem wp_matchPassword_accepts {k : Kernel} {str : CString} (halloc : env.Allocates)
    (hcrypto : env.Hashes)
    (hpassword : k.core.theInstance.password = some (hexconv (env.sha256 str.bytes))) :
    wp (matchPassword env str) (fun same t => same = true ∧ Same k t) (fun _ _ => False) k := by
  have hhash (t : Kernel) : wp (hashgenStr env str)
      (fun out u => out = some (hexconv (env.sha256 str.bytes)) ∧ Same t u) (fun _ _ => False) t := by
    refine wp_mono (wp_hashgenStr str) ?_ fun _ _ h => h.1 halloc
    rintro out u ⟨hout, hu⟩
    exact ⟨hout.resolve_right fun hnone => hnone.2 ⟨halloc, hcrypto⟩, hu⟩
  rw [matchPassword, wp_bind, wp_gets, wp_bind, hpassword]
  refine wp_mono (hhash k) ?_ fun _ _ h => h
  rintro str1 t₁ ⟨rfl, h₁⟩
  rw [wp_bind]
  refine wp_mono (hhash t₁) ?_ fun _ _ h => h
  rintro measured t₂ ⟨rfl, h₂⟩
  have hcmp := (strncmp_eq_zero_iff (hexconv (env.sha256 str.bytes)) _ []
    (hexconv (env.sha256 str.bytes)).length).mpr rfl
  rw [List.append_nil] at hcmp
  dsimp only
  rw [if_pos hcmp, wp_bind]
  refine wp_mono (hhash t₂) ?_ fun _ _ h => h
  rintro again t₃ ⟨rfl, h₃⟩
  exact ⟨beq_self_eq_true _, Same.trans _ _ _ (Same.trans _ _ _ h₁ h₂) h₃⟩

/-- Every resource a call needs to copy the string `s` from user memory is there. -/
structure Copyable (s : CString) : Prop where
  allocates : env.Allocates
  nonempty : s ≠ []
  short : s.length < INT_MAX

/-- Behind a pointer that is not `NULL` the copying starts with a measurement and a comparison. -/
theorem sanitizeUserInputAlloc_some (region : ℕ → List UInt8) :
    sanitizeUserInputAlloc env (some region) = (do
      let length ← userStrlen (some region)
      let empty ← userMatchString (some region) []
      if empty then pure none
      else do
        let safeOutput ← kmalloc env
        if safeOutput = false then pure none else copyFromUser (some region) (outsize length)) := by
  have hsize (length : ℕ) : (Int.bmod (length + 1) (2 ^ 32) % 2 ^ 64).toNat = outsize length := rfl
  simp only [sanitizeUserInputAlloc, Option.isNone_some, Bool.false_eq_true, if_false, hsize]

/-- Copying a string nobody writes to gives that string, a buffer without a terminator, or
nothing; and the string itself when it is copyable. -/
theorem wp_sanitizeUserInputAlloc {k : Kernel} {user : UserPtr} {s : CString}
    (h : ReadsFrom k.aux.clock user s) :
    wp (sanitizeUserInputAlloc env user)
      (fun out t => (out = none ∧ ¬ Copyable env s ∨ ∃ buffer, out = some buffer ∧
        (cstring buffer = some s ∧ s ≠ [] ∨ cstring buffer = none ∧ ¬ Copyable env s)) ∧ Same k t)
      (fun _ _ => False) k := by
  rw [sanitizeUserInputAlloc, wp_bind]
  refine wp_mono (wp_userStrlen h) ?_ fun _ _ hF => hF
  rintro length t₁ ⟨rfl, h₁⟩
  have hnull : user.isNone = false := by
    obtain ⟨region, rfl, -⟩ := h
    rfl
  rw [hnull, if_neg Bool.false_ne_true, wp_bind]
  refine wp_mono (wp_userMatchString [] (h.later h₁.clock)) ?_ fun _ _ hF => hF
  rintro empty t₂ ⟨hempty, h₂⟩
  have k₂ := Same.trans _ _ _ h₁ h₂
  split
  · rename_i hnil
    exact ⟨Or.inl ⟨rfl, fun hcopy => hcopy.nonempty (hempty.mp hnil)⟩, k₂⟩
  rename_i hne
  have hs : s ≠ [] := fun hnil => hne (hempty.mpr hnil)
  refine wp_ask_else (fun t ht hfail => ?_) fun t₃ h₃ => ?_
  · exact ⟨Or.inl ⟨rfl, fun hcopy => hfail hcopy.allocates⟩, Same.trans _ _ _ k₂ ht⟩
  have k₃ := Same.trans _ _ _ k₂ h₃
  have hsize (hcopy : Copyable env s) :
      (Int.bmod (s.length + 1) (2 ^ 32) % 2 ^ 64).toNat = s.length + 1 := outsize_of_lt hcopy.short
  generalize (Int.bmod (s.length + 1) (2 ^ 32) % 2 ^ 64).toNat = size at hsize ⊢
  obtain ⟨region, rfl, hreads⟩ := h.later k₃.clock
  obtain ⟨rest, hrest⟩ := hreads t₃.aux.clock le_rfl
  rw [copyFromUser, wp_bind]
  refine wp_ask fun t₄ h₄ => ?_
  have k₄ := Same.trans _ _ _ k₃ h₄
  rw [hrest]
  split
  · refine ⟨Or.inr ⟨_, rfl, ?_⟩, k₄⟩
    rw [cstring_take_mem]
    split
    · exact Or.inl ⟨rfl, hs⟩
    · rename_i hshort
      exact Or.inr ⟨rfl, fun hcopy => hshort (by rw [hsize hcopy]; exact Nat.lt_succ_self _)⟩
  · rename_i hlong
    refine ⟨Or.inl ⟨rfl, fun hcopy => hlong ?_⟩, k₄⟩
    rw [hsize hcopy]
    simp [CString.mem, CString.bytes]

/-- Whatever string is copied from stable memory is the one the pointer points to. -/
theorem wp_sanitizeUserInputAlloc_stable {k : Kernel} {user : UserPtr} (h : user.Stable) :
    wp (sanitizeUserInputAlloc env user)
      (fun out t => (∀ buffer str, out = some buffer → cstring buffer = some str →
        PointsTo user str) ∧ Same k t)
      (fun _ t => Same k t) k := by
  rcases h.cases with ⟨s, hs⟩ | rfl | ⟨region, rfl, hregion⟩
  · refine wp_mono (wp_sanitizeUserInputAlloc env (hs.from _)) ?_ fun _ _ hF => hF.elim
    intro out t ⟨hout, ht⟩
    refine ⟨fun buffer str hbuffer hstr => ?_, ht⟩
    rcases hout with ⟨rfl, -⟩ | ⟨copy, rfl, ⟨hcopy, -⟩ | ⟨hcopy, -⟩⟩
    · cases hbuffer
    · cases hbuffer
      rw [hcopy, Option.some.injEq] at hstr
      rwa [← hstr]
    · cases hbuffer
      rw [hcopy] at hstr
      cases hstr
  · exact Same.refl k
  · rw [sanitizeUserInputAlloc, wp_bind, userStrlen, wp_bind]
    refine wp_ask fun t ht => ?_
    rw [strlen, hregion]
    exact ht

end

section Checks

variable {δ : Type} (env : Env δ)

/-- The stored password is the rendering of `digest`. -/
def TheInstance.PasswordIs (inst : TheInstance) (digest : Digest) : Prop :=
  inst.password = some (hexconv digest)

/-- One digest is behind the stored password. -/
theorem TheInstance.PasswordIs.unique {inst : TheInstance} {d d' : Digest} (h : inst.PasswordIs d)
    (h' : inst.PasswordIs d') : d = d' :=
  hexconv_injective (Option.some.inj (h.symm.trans h'))

/-- What a reconfiguration call must come with: a root caller, a state that allows it, and a
password whose digest is the stored one. -/
structure Authorised (k : Kernel) (password : UserPtr) : Prop where
  root : env.euid = GLOBAL_ROOT_UID
  reconf : isReconf k.core.theInstance = true
  password : ∃ supplied, PointsTo password supplied ∧
    k.core.theInstance.PasswordIs (env.sha256 supplied.bytes)

/-- The test for a negative `euid` never fires, so the root check is a test for root. -/
theorem rootCheck_eq :
    rootCheck env = pure (if env.euid = GLOBAL_ROOT_UID then 0 else -EACCES) := by
  have hneg : ¬ env.euid < 0 := by simp
  unfold rootCheck isEuidRoot
  rw [if_neg hneg]
  split <;> simp

/-- A call that asks for the root check alone learns whether the caller is root. -/
theorem safetyChecks_root :
    safetyChecks env REFMON_SAFETY_CHECK_ROOT none =
      pure (if env.euid = GLOBAL_ROOT_UID then 0 else -EACCES) := by
  have hnone : hasFlag REFMON_SAFETY_CHECK_ROOT REFMON_SAFETY_CHECK_NONE = false := rfl
  have hroot : hasFlag REFMON_SAFETY_CHECK_ROOT REFMON_SAFETY_CHECK_ROOT = true := rfl
  have hreconf : hasFlag REFMON_SAFETY_CHECK_ROOT REFMON_SAFETY_CHECK_RECONF = false := rfl
  have hpassword : hasFlag REFMON_SAFETY_CHECK_ROOT REFMON_SAFETY_CHECK_PASSWORD = false := rfl
  simp only [safetyChecks, hnone, hroot, hreconf, hpassword, rootCheck_eq]
  by_cases h : env.euid = GLOBAL_ROOT_UID
  · simp [h]
  · simp [h, EACCES]

/-- The three reconfiguration calls ask for all three checks, in this order. -/
theorem safetyChecks_reconf (arg : UserPtr) :
    safetyChecks env reconfChecks arg =
      if env.euid ≠ GLOBAL_ROOT_UID then pure (-EACCES)
      else (do
        let reconf ← gets fun core => isReconf core.theInstance
        if reconf = false then pure (-EPERM) else passwordCheck env arg) := by
  have hnone : hasFlag reconfChecks REFMON_SAFETY_CHECK_NONE = false := rfl
  have hroot : hasFlag reconfChecks REFMON_SAFETY_CHECK_ROOT = true := rfl
  have hreconf : hasFlag reconfChecks REFMON_SAFETY_CHECK_RECONF = true := rfl
  have hpassword : hasFlag reconfChecks REFMON_SAFETY_CHECK_PASSWORD = true := rfl
  simp only [safetyChecks, hnone, hroot, hreconf, hpassword, rootCheck_eq, reconfCheck, checkReconf]
  by_cases h : env.euid = GLOBAL_ROOT_UID
  · simp only [h, if_true, pure_bind, ne_eq, not_true_eq_false, if_false, bind_assoc,
      Bool.false_eq_true]
    apply congrArg (bind _)
    funext reconf
    have hlast : (fun ret : ℤ => if ret = 0 then (pure 0 : K ℤ) else pure ret) = pure := by
      funext ret
      split <;> simp [*]
    cases reconf
    · simp [EPERM]
    · simp [hlast]
  · simp [h, EACCES]

theorem moves_passwordCheck (arg : UserPtr) : Moves Same (passwordCheck env arg) :=
  Same.steady.moves_passwordCheck env arg

/-- The password check passes only on the password whose digest is stored. -/
theorem wp_passwordCheck {k : Kernel} {arg : UserPtr} (h : arg.Stable) :
    wp (passwordCheck env arg)
      (fun ret t => (ret = 0 → ∃ supplied, PointsTo arg supplied ∧
        k.core.theInstance.PasswordIs (env.sha256 supplied.bytes)) ∧ Same k t)
      (fun _ t => Same k t) k := by
  rw [passwordCheck, wp_bind]
  refine wp_mono (wp_sanitizeUserInputAlloc_stable env h) ?_ fun _ _ hE => hE
  intro out t ⟨hout, ht⟩
  cases out with
  | none => exact ⟨fun hzero => absurd hzero (by decide), ht⟩
  | some buffer =>
    dsimp only
    rw [wp_bind, readBuffer]
    cases hread : cstring buffer with
    | none => exact ht
    | some supplied =>
      have hpoints := hout buffer supplied rfl hread
      rw [wp_pure, wp_bind]
      refine wp_mono (wp_matchPassword env supplied) ?_ fun _ _ hE => Same.trans _ _ _ ht hE
      intro same u ⟨hsame, hu⟩
      have hku := Same.trans _ _ _ ht hu
      cases same with
      | false => exact ⟨fun hzero => absurd hzero (by decide), hku⟩
      | true => exact ⟨fun _ => ⟨supplied, hpoints, by rw [← ht.core]; exact hsame rfl⟩, hku⟩

/-- Passing needs a root caller, a reconfigurable state, and what the password check establishes. -/
theorem wp_safetyChecks {k : Kernel} {arg : UserPtr} {P : Prop}
    (hcheck : wp (passwordCheck env arg) (fun ret t => (ret = 0 → P) ∧ Same k t) (fun _ t => Same k t) k) :
    wp (safetyChecks env reconfChecks arg)
      (fun ret t =>
        (ret = 0 → env.euid = GLOBAL_ROOT_UID ∧ isReconf k.core.theInstance = true ∧ P) ∧ Same k t)
      (fun _ t => Same k t) k := by
  rw [safetyChecks_reconf]
  split
  · exact ⟨fun hzero => absurd hzero (by decide), Same.refl k⟩
  · rename_i hroot
    rw [wp_bind, wp_gets]
    split
    · exact ⟨fun hzero => absurd hzero (by decide), Same.refl k⟩
    · rename_i hreconf
      refine wp_mono hcheck ?_ fun _ _ hE => hE
      intro ret t ⟨hret, ht⟩
      exact ⟨fun hzero => ⟨not_not.mp hroot, by simpa using hreconf, hret hzero⟩, ht⟩

/-- Passing needs the password too when nobody writes to its memory. -/
theorem wp_safetyChecks_authorised {k : Kernel} (arg : UserPtr) :
    wp (safetyChecks env reconfChecks arg)
      (fun ret t => (ret = 0 → env.euid = GLOBAL_ROOT_UID ∧ isReconf k.core.theInstance = true ∧
        (arg.Stable → ∃ supplied, PointsTo arg supplied ∧
          k.core.theInstance.PasswordIs (env.sha256 supplied.bytes))) ∧ Same k t)
      (fun _ t => Same k t) k := by
  by_cases hstable : arg.Stable
  · refine wp_mono (wp_safetyChecks env (wp_passwordCheck env hstable)) ?_ fun _ _ hE => hE
    intro ret t ⟨hret, ht⟩
    refine ⟨fun hzero => ?_, ht⟩
    obtain ⟨hroot, hreconf, hpassword⟩ := hret hzero
    exact ⟨hroot, hreconf, fun _ => hpassword⟩
  · have hcheck : wp (passwordCheck env arg) (fun ret t => (ret = 0 → True) ∧ Same k t)
        (fun _ t => Same k t) k :=
      wp_mono (moves_passwordCheck env arg k) (fun _ _ ht => ⟨fun _ => trivial, ht⟩) fun _ _ hE => hE
    refine wp_mono (wp_safetyChecks env hcheck) ?_ fun _ _ hE => hE
    intro ret t ⟨hret, ht⟩
    refine ⟨fun hzero => ?_, ht⟩
    obtain ⟨hroot, hreconf, -⟩ := hret hzero
    exact ⟨hroot, hreconf, fun h => absurd h hstable⟩

/-- An authorised caller passes when its password can be copied and hashed. -/
theorem wp_safetyChecks_accepts {k : Kernel} {arg : UserPtr} {supplied : CString}
    (hroot : env.euid = GLOBAL_ROOT_UID) (hreconf : isReconf k.core.theInstance = true)
    (hpoints : PointsTo arg supplied)
    (hpassword : k.core.theInstance.PasswordIs (env.sha256 supplied.bytes))
    (hcopy : Copyable env supplied) (hcrypto : env.Hashes) :
    wp (safetyChecks env reconfChecks arg) (fun ret t => ret = 0 ∧ Same k t) (fun _ _ => False) k := by
  rw [safetyChecks_reconf, if_neg (not_not.mpr hroot), wp_bind, wp_gets, hreconf,
    if_neg Bool.true_eq_false.mp, passwordCheck, wp_bind]
  refine wp_mono (wp_sanitizeUserInputAlloc env (hpoints.from _)) ?_ fun _ _ hE => hE
  intro out t ⟨hout, ht⟩
  obtain ⟨-, hno⟩ | ⟨buffer, rfl, ⟨hbuffer, -⟩ | ⟨-, hno⟩⟩ := hout
  · exact (hno hcopy).elim
  · dsimp only
    rw [wp_bind, readBuffer, hbuffer]
    dsimp only
    rw [wp_pure, wp_bind]
    refine wp_mono (wp_matchPassword_accepts env hcopy.allocates hcrypto ?_) ?_ fun _ _ hE => hE
    · rw [ht.core]
      exact hpassword
    · intro same u ⟨hsame, hu⟩
      rw [hsame]
      exact ⟨rfl, Same.trans _ _ _ ht hu⟩
  · exact (hno hcopy).elim

end Checks

end Refmon
