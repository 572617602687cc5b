import Mathlib.Data.Nat.Digits.Defs
import Mathlib.Tactic.Common

/-!
# Printing and scanning decimal integers

`print` writes an integer as the conversion `%d` of `printf` does, without padding, and `scan`
reads one as `%d` of `scanf` does once blanks are skipped: an optional sign, then the longest
run of digits. What was printed is scanned back, whatever follows it, unless that is a digit.
-/

namespace Decimal

/-- The character of a decimal digit. -/
def digitChar (digit : ℕ) : UInt8 := UInt8.ofNat (48 + digit)

/-- The character is a decimal digit. -/
def isDigit (char : UInt8) : Bool := 48 ≤ char.toNat && char.toNat ≤ 57

/-- A natural number, most significant digit first. -/
def printNat (n : ℕ) : List UInt8 :=
  if n = 0 then [digitChar 0] else ((Nat.digits 10 n).map digitChar).reverse

/-- An integer, with a minus sign if it is negative. -/
def print (z : ℤ) : List UInt8 := if z < 0 then 45 :: printNat z.natAbs else printNat z.natAbs

/-- The number that a run of digits stands for. -/
def value (chars : List UInt8) : ℕ := chars.foldl (fun n char => 10 * n + (char.toNat - 48)) 0

/-- The number at the start of the input, and the input behind it. -/
def scanNat (input : List UInt8) : Option (ℕ × List UInt8) :=
  if input.takeWhile isDigit = [] then none
  else some (value (input.takeWhile isDigit), input.dropWhile isDigit)

/-- The integer at the start of the input, and the input behind it. -/
def scan (input : List UInt8) : Option (ℤ × List UInt8) :=
  if input.head? = some 45 then (scanNat input.tail).map fun (n, rest) => (-n, rest)
  else if input.head? = some 43 then (scanNat input.tail).map fun (n, rest) => (n, rest)
  else (scanNat input).map fun (n, rest) => (n, rest)

variable {rest : List UInt8}

/-- A digit is the character of its value. -/
theorem digitChar_toNat {digit : ℕ} (h : digit < 10) : (digitChar digit).toNat = 48 + digit := by
  rw [digitChar, UInt8.toNat_ofNat']
  omega

/-- The characters printed for a number are those of its digits. -/
theorem printNat_chars (n : ℕ) : ∀ char ∈ printNat n, ∃ digit, digit < 10 ∧ char = digitChar digit := by
  intro char hchar
  unfold printNat at hchar
  split at hchar
  · exact ⟨0, by omega, List.mem_singleton.mp hchar⟩
  · rw [List.mem_reverse, List.mem_map] at hchar
    obtain ⟨digit, hdigit, heq⟩ := hchar
    exact ⟨digit, Nat.digits_lt_base (by omega) hdigit, heq.symm⟩

/-- What is printed for a natural number is made of digits. -/
theorem printNat_isDigit {n : ℕ} {char : UInt8} (h : char ∈ printNat n) : isDigit char = true := by
  obtain ⟨digit, hlt, heq⟩ := printNat_chars n char h
  rw [isDigit, heq, digitChar_toNat hlt]
  simp
  omega

theorem printNat_ne_nil (n : ℕ) : printNat n ≠ [] := by
  unfold printNat
  split
  · simp
  · rename_i hn
    rw [ne_eq, List.reverse_eq_nil_iff, List.map_eq_nil_iff]
    exact Nat.digits_ne_nil_iff_ne_zero.mpr hn

/-- The digits of a number stand for it. -/
theorem value_printNat (n : ℕ) : value (printNat n) = n := by
  unfold value printNat
  split
  · rename_i hn
    rw [hn]
    rfl
  · have hfold (digits : List ℕ) (hlt : ∀ digit ∈ digits, digit < 10) :
        (digits.map digitChar).foldr (fun char n => 10 * n + (char.toNat - 48)) 0 =
          Nat.ofDigits 10 digits := by
      induction digits with
      | nil => rfl
      | cons digit digits ih =>
        rw [List.map_cons, List.foldr_cons, ih fun d hd => hlt d (List.mem_cons_of_mem _ hd),
          digitChar_toNat (hlt digit List.mem_cons_self), Nat.ofDigits_cons]
        omega
    rw [List.foldl_reverse, hfold _ fun digit hdigit => Nat.digits_lt_base (by omega) hdigit,
      Nat.ofDigits_digits]

/-- A printed number is scanned back. -/
theorem scanNat_printNat (n : ℕ) (hrest : ∀ char ∈ rest.head?, isDigit char = false) :
    scanNat (printNat n ++ rest) = some (n, rest) := by
  have hall : ∀ char ∈ printNat n, isDigit char = true := fun char h => printNat_isDigit h
  have hstop : rest.takeWhile isDigit = [] ∧ rest.dropWhile isDigit = rest := by
    cases rest with
    | nil => exact ⟨rfl, rfl⟩
    | cons char rest => simp [hrest char rfl]
  have htake : (printNat n ++ rest).takeWhile isDigit = printNat n := by
    rw [List.takeWhile_append_of_pos hall, hstop.1, List.append_nil]
  have hdrop : (printNat n ++ rest).dropWhile isDigit = rest := by
    rw [List.dropWhile_append_of_pos hall, hstop.2]
  rw [scanNat, htake, hdrop, if_neg (printNat_ne_nil n), value_printNat]

/-- A printed natural number starts with a digit. -/
theorem printNat_head (n : ℕ) (char : UInt8) (hchar : isDigit char = false) :
    (printNat n ++ rest).head? ≠ some char := by
  cases hprint : printNat n with
  | nil => exact absurd hprint (printNat_ne_nil n)
  | cons first chars =>
    intro heq
    have hfirst := printNat_isDigit (n := n) (by rw [hprint]; exact List.mem_cons_self)
    rw [List.cons_append, List.head?_cons, Option.some.injEq] at heq
    rw [heq, hchar] at hfirst
    cases hfirst

/-- A printed integer is scanned back, unless a digit follows. -/
theorem scan_print (z : ℤ) (hrest : ∀ char ∈ rest.head?, isDigit char = false) :
    scan (print z ++ rest) = some (z, rest) := by
  unfold print scan
  split
  · rename_i hneg
    rw [List.cons_append, List.head?_cons, if_pos rfl, List.tail_cons, scanNat_printNat _ hrest,
      Option.map_some]
    simp only [Option.some.injEq, Prod.mk.injEq, and_true]
    omega
  · rename_i hpos
    rw [if_neg (printNat_head _ _ rfl), if_neg (printNat_head _ _ rfl), scanNat_printNat _ hrest,
      Option.map_some]
    simp only [Option.some.injEq, Prod.mk.injEq, and_true]
    omega

/-- What is printed for an integer is made of digits, and a minus sign. -/
theorem print_chars {z : ℤ} {char : UInt8} (h : char ∈ print z) : char = 45 ∨ isDigit char = true := by
  unfold print at h
  split at h
  · rcases List.mem_cons.mp h with hminus | hdigit
    · exact Or.inl hminus
    · exact Or.inr (printNat_isDigit hdigit)
  · exact Or.inr (printNat_isDigit h)

/-- Distinct integers are printed differently. -/
theorem print_injective : Function.Injective print := by
  intro z z' h
  have hfirst := @scan_print [] z (by simp)
  rw [h, scan_print z' (by simp)] at hfirst
  exact ((Prod.mk.inj (Option.some.inj hfirst)).1).symm

end Decimal
