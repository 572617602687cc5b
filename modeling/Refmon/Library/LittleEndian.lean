import Mathlib.Algebra.Group.Nat.Defs
import Mathlib.Data.Nat.Init
import Mathlib.Tactic.Common

/-!
# Numbers in memory, least significant byte first

`encode width n` are the bytes of a number in a field of the given width, and `decode` reads
them back: exactly, when the number fits the field.
-/

namespace LittleEndian

/-- The bytes of a number in a field of `width` bytes. -/
def encode : ℕ → ℕ → List UInt8
  | 0, _ => []
  | width + 1, n => UInt8.ofNat n :: encode width (n / 256)

/-- The number that the bytes stand for. -/
def decode (bytes : List UInt8) : ℕ := bytes.foldr (fun byte rest => byte.toNat + 256 * rest) 0

@[simp] theorem encode_length (width n : ℕ) : (encode width n).length = width := by
  induction width generalizing n with
  | zero => rfl
  | succ width ih => rw [encode, List.length_cons, ih]

/-- A number that fits the field is read back. -/
theorem decode_encode {width n : ℕ} (h : n < 256 ^ width) : decode (encode width n) = n := by
  induction width generalizing n with
  | zero =>
    rw [Nat.pow_zero, Nat.lt_one_iff] at h
    rw [h]
    rfl
  | succ width ih =>
    have hrest : decode (encode width (n / 256)) = n / 256 := by
      apply ih
      rw [Nat.pow_succ] at h
      exact Nat.div_lt_of_lt_mul (by rwa [Nat.mul_comm] at h)
    have hbyte : (UInt8.ofNat n).toNat = n % 256 := UInt8.toNat_ofNat'
    unfold decode at hrest ⊢
    rw [encode, List.foldr_cons, hrest, hbyte]
    omega

end LittleEndian
