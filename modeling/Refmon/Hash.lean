import Refmon.Kernel

/-!
# Password hashing

`hashgen_str` and the hexadecimal rendering of digests, from `misc.c`. Which digest the
kernel computes is a parameter of the environment. Rendering is injective, so comparing
rendered digests compares digests.
-/

namespace Refmon

open Wp

/-- The lower-case hexadecimal digit of a nibble. -/
def hexDigit (n : Fin 16) : CChar := (lit "0123456789abcdef").get n

/-- `sprintf` with `%02x` of one byte. -/
def hexByte (b : UInt8) : CString :=
  [hexDigit (Fin.ofNat 16 (b.toNat / 16)), hexDigit (Fin.ofNat 16 (b.toNat % 16))]

/-- `hexconv`. -/
def hexconv (hash : Digest) : CString := hash.toList.flatMap hexByte

/-- Distinct nibbles have distinct digits. -/
theorem hexDigit_injective : Function.Injective hexDigit := by
  intro m n
  revert m n
  decide

/-- Distinct bytes have distinct renderings. -/
theorem hexByte_injective : Function.Injective hexByte := by
  intro a b h
  simp only [hexByte, List.cons.injEq, and_true] at h
  have hhigh := congrArg Fin.val (hexDigit_injective h.1)
  have hlow := congrArg Fin.val (hexDigit_injective h.2)
  simp only [Fin.val_ofNat] at hhigh hlow
  have ha := a.toNat_lt
  have hb := b.toNat_lt
  apply UInt8.toNat_inj.mp
  omega

/-- Renderings of byte lists determine the bytes. -/
theorem flatMap_hexByte_injective : Function.Injective (List.flatMap hexByte) := by
  intro left
  induction left with
  | nil =>
    intro right h
    cases right with
    | nil => rfl
    | cons b right => simp [hexByte] at h
  | cons a left ih =>
    intro right h
    cases right with
    | nil => simp [hexByte] at h
    | cons b right =>
      have hp := List.append_inj h rfl
      exact congrArg₂ List.cons (hexByte_injective hp.1) (ih hp.2)

/-- Distinct digests have distinct renderings. -/
theorem hexconv_injective : Function.Injective hexconv := by
  intro left right h
  exact Vector.toList_inj.mp (flatMap_hexByte_injective h)

section

variable {δ : Type} (env : Env δ)

/-- `hashgen_str`. When the first allocation fails the cleanup frees `desc`, which no
statement has assigned. -/
def hashgenStr (str : CString) : K (Option CString) := do
  let out ← kmalloc env
  if out = false then throw .wildFree
  else do
    let shash ← crypto env
    if shash = false then pure none
    else do
      let desc ← kmalloc env
      if desc = false then pure none
      else do
        let init ← crypto env
        if init = false then pure none
        else do
          let update ← crypto env
          if update = false then pure none
          else do
            let final ← crypto env
            if final = false then pure none
            else pure (some (hexconv (env.sha256 str.bytes)))

theorem Steady.moves_hashgenStr {R : Kernel → Kernel → Prop} (h : Steady R) (str : CString) :
    Moves R (hashgenStr env str) := by
  have hnone : Moves R (pure none : K (Option CString)) := Moves.pure h.refl _
  refine Moves.bind h.trans (h.returns_ask _).moves fun out => Moves.ite (Moves.throw h.refl _) ?_
  refine Moves.bind h.trans (h.returns_ask _).moves fun shash => Moves.ite hnone ?_
  refine Moves.bind h.trans (h.returns_ask _).moves fun desc => Moves.ite hnone ?_
  refine Moves.bind h.trans (h.returns_ask _).moves fun init => Moves.ite hnone ?_
  refine Moves.bind h.trans (h.returns_ask _).moves fun update => Moves.ite hnone ?_
  refine Moves.bind h.trans (h.returns_ask _).moves fun final => Moves.ite hnone ?_
  exact Moves.pure h.refl _

variable {env} {k : Kernel}

/-- The result is the rendered digest, or `NULL` after a failed step; only a failed
allocation can fault. -/
theorem wp_hashgenStr (str : CString) :
    wp (hashgenStr env str)
      (fun out t => (out = some (hexconv (env.sha256 str.bytes)) ∨
        out = none ∧ ¬ (env.Allocates ∧ env.Hashes)) ∧ Same k t)
      (fun _ t => ¬ env.Allocates ∧ Same k t) k := by
  have hnone {t : Kernel} (hfail : ¬ (env.Allocates ∧ env.Hashes)) (ht : Same k t) :
      ((none : Option CString) = some (hexconv (env.sha256 str.bytes)) ∨
        (none : Option CString) = none ∧ ¬ (env.Allocates ∧ env.Hashes)) ∧ Same k t :=
    ⟨Or.inr ⟨rfl, hfail⟩, ht⟩
  -- `out`, the only buffer whose absence faults
  apply wp_ask_else
  · intro t ht hfail
    exact ⟨hfail, ht⟩
  intro t₁ k₁
  apply wp_ask_else
  · intro t ht hfail
    exact hnone (fun hok => hfail hok.2) (Same.trans _ _ _ k₁ ht)
  intro t₂ h₂
  have k₂ := Same.trans _ _ _ k₁ h₂
  apply wp_ask_else
  · intro t ht hfail
    exact hnone (fun hok => hfail hok.1) (Same.trans _ _ _ k₂ ht)
  intro t₃ h₃
  have k₃ := Same.trans _ _ _ k₂ h₃
  apply wp_ask_else
  · intro t ht hfail
    exact hnone (fun hok => hfail hok.2) (Same.trans _ _ _ k₃ ht)
  intro t₄ h₄
  have k₄ := Same.trans _ _ _ k₃ h₄
  apply wp_ask_else
  · intro t ht hfail
    exact hnone (fun hok => hfail hok.2) (Same.trans _ _ _ k₄ ht)
  intro t₅ h₅
  have k₅ := Same.trans _ _ _ k₄ h₅
  apply wp_ask_else
  · intro t ht hfail
    exact hnone (fun hok => hfail hok.2) (Same.trans _ _ _ k₅ ht)
  intro t₆ h₆
  have k₆ := Same.trans _ _ _ k₅ h₆
  exact ⟨Or.inl rfl, k₆⟩

end

end Refmon
