import Mathlib.Data.Int.Notation
import Mathlib.Data.List.Basic
import Mathlib.Tactic.Common

/-!
# C strings and the string functions the module uses

A `CString` is a list of non-zero bytes; `CString.mem` is the same string as it lies in
memory, with its terminating NUL. `strlen` and `strncmp` read raw memory and give `none`
when they run off its end, so they also describe reads of a buffer that another thread
owns. `matchString` is the macro `MATCH_STRING`.
-/

namespace Refmon

/-- A character of a C string is any byte but NUL. -/
abbrev CChar := {b : UInt8 // b ≠ 0}

instance (priority := high) : LawfulBEq CChar := inferInstance

/-- The characters of a C string before its terminator. -/
abbrev CString := List CChar

/-- The bytes of a source literal. -/
def lit (text : String) : CString :=
  text.toList.filterMap fun c =>
    if h : c.toNat.toUInt8 ≠ 0 then some ⟨c.toNat.toUInt8, h⟩ else none

/-- The bytes of a string without its terminator. -/
def CString.bytes (s : CString) : List UInt8 := s.map Subtype.val

/-- The string as it lies in memory. -/
def CString.mem (s : CString) : List UInt8 := s.bytes ++ [0]

/-- The string at the start of a memory region, if the region holds a terminator. -/
def cstring : List UInt8 → Option CString
  | [] => none
  | b :: rest => if h : b = 0 then some [] else (cstring rest).map (List.cons ⟨b, h⟩)

/-- `strlen`, failing when no terminator is reached. -/
def strlen (region : List UInt8) : Option ℕ := (cstring region).map List.length

/-- `strncmp`, failing when it runs off either region before it is decided. -/
def strncmp : List UInt8 → List UInt8 → ℕ → Option ℤ
  | _, _, 0 => some 0
  | [], _, _ + 1 => none
  | _ :: _, [], _ + 1 => none
  | a :: left, b :: right, n + 1 =>
    if a ≠ b then some (if a < b then -1 else 1)
    else if a = 0 then some 0
    else strncmp left right n

/-- `MATCH_STRING`: the macro of `misc.h` on two kernel strings. -/
def matchString (str1 str2 : CString) : Bool :=
  strncmp str1.mem str2.mem str1.length == some 0 && str1.length == str2.length

/-- The empty string is its terminator. -/
@[simp] theorem CString.mem_nil : CString.mem [] = [0] := rfl

/-- Memory holds the first character before the rest. -/
@[simp] theorem CString.mem_cons (c : CChar) (s : CString) :
    CString.mem (c :: s) = c.val :: CString.mem s := rfl

theorem CString.length_bytes (s : CString) : s.bytes.length = s.length := List.length_map _

theorem CString.bytes_append (s t : CString) : CString.bytes (s ++ t) = s.bytes ++ t.bytes := List.map_append

theorem CString.length_mem (s : CString) : s.mem.length = s.length + 1 := by
  rw [CString.mem, List.length_append, CString.length_bytes, List.length_singleton]

/-- Distinct strings have distinct bytes. -/
theorem CString.bytes_injective : Function.Injective CString.bytes :=
  List.map_injective_iff.mpr Subtype.val_injective

/-- The characters of a C string are not zero. -/
theorem zero_not_mem_bytes (text : CString) : 0 ∉ text.bytes := by
  intro hzero
  obtain ⟨char, -, hchar⟩ := List.mem_map.mp hzero
  exact char.property hchar

/-- A text without a NUL is a string. -/
theorem exists_bytes_eq {content : List UInt8} (h : (0 : UInt8) ∉ content) :
    ∃ str : CString, str.bytes = content := by
  refine ⟨content.attach.map fun byte => ⟨byte.val, fun hzero => h (hzero ▸ byte.property)⟩, ?_⟩
  rw [CString.bytes, List.map_map]
  exact List.attach_map_subtype_val content

/-- A string is read back from memory whatever follows its terminator. -/
@[simp] theorem cstring_mem_append (s : CString) (rest : List UInt8) :
    cstring (s.mem ++ rest) = some s := by
  induction s with
  | nil => simp [cstring]
  | cons c s ih => simp [cstring, c.property, ih]

/-- The length read from memory is the length of the string there. -/
@[simp] theorem strlen_mem_append (s : CString) (rest : List UInt8) :
    strlen (s.mem ++ rest) = some s.length := by
  rw [strlen, cstring_mem_append, Option.map_some]

/-- A string read from a region is a prefix of it, terminator included. -/
theorem cstring_eq_some {region : List UInt8} {s : CString} (h : cstring region = some s) :
    ∃ rest, region = s.mem ++ rest := by
  induction region generalizing s with
  | nil => simp [cstring] at h
  | cons b region ih =>
    by_cases hb : b = 0
    · rw [cstring, dif_pos hb, Option.some.injEq] at h
      subst h hb
      exact ⟨region, rfl⟩
    · rw [cstring, dif_neg hb, Option.map_eq_some_iff] at h
      obtain ⟨tail, htail, rfl⟩ := h
      obtain ⟨rest, rfl⟩ := ih htail
      exact ⟨rest, rfl⟩

/-- `strncmp` finds two strings equal exactly when their bounded prefixes agree, whatever
follows the terminator of the first. -/
theorem strncmp_eq_zero_iff (s t : CString) (rest : List UInt8) (n : ℕ) :
    strncmp (s.mem ++ rest) t.mem n = some 0 ↔ s.take n = t.take n := by
  induction n generalizing s t with
  | zero => simp [strncmp]
  | succ n ih =>
    cases s with
    | nil =>
      cases t with
      | nil => simp [strncmp]
      | cons d t =>
        have hd : (0 : UInt8) ≠ d.val := Ne.symm d.property
        simp only [CString.mem_nil, CString.mem_cons, List.cons_append, strncmp, if_pos hd]
        split <;> simp
    | cons c s =>
      cases t with
      | nil =>
        simp only [CString.mem_nil, CString.mem_cons, List.cons_append, strncmp,
          if_pos c.property]
        split <;> simp
      | cons d t =>
        by_cases hcd : c = d
        · subst hcd
          simp [strncmp, c.property, ih]
        · have hval : c.val ≠ d.val := fun h => hcd (Subtype.ext h)
          simp only [CString.mem_cons, List.cons_append, strncmp, if_pos hval]
          split <;> simp [hcd]

/-- `strncmp` decides every comparison of terminated strings. -/
theorem strncmp_mem_isSome (s t : CString) (rest : List UInt8) (n : ℕ) :
    ∃ c, strncmp (s.mem ++ rest) t.mem n = some c := by
  induction n generalizing s t with
  | zero => exact ⟨0, by simp [strncmp]⟩
  | succ n ih =>
    cases s with
    | nil => cases t <;> simp only [CString.mem_nil, CString.mem_cons, List.cons_append, strncmp] <;>
        split <;> simp
    | cons c s =>
      cases t with
      | nil => simp [strncmp, c.property]
      | cons d t =>
        by_cases hcd : c.val = d.val
        · simpa [strncmp, hcd, d.property] using ih s t
        · simp [strncmp, hcd]

/-- Equal lengths and equal prefixes of that length leave no difference. -/
theorem take_eq_and_length_eq_iff {α : Type*} (s t : List α) :
    s.take s.length = t.take s.length ∧ s.length = t.length ↔ s = t := by
  constructor
  · rintro ⟨htake, hlen⟩
    rwa [List.take_length, hlen, List.take_length] at htake
  · rintro rfl
    exact ⟨rfl, rfl⟩

/-- The macro decides equality of strings. -/
@[simp] theorem matchString_iff (str1 str2 : CString) : matchString str1 str2 = true ↔ str1 = str2 := by
  have h := strncmp_eq_zero_iff str1 str2 [] str1.length
  rw [List.append_nil] at h
  rw [matchString, Bool.and_eq_true, beq_iff_eq, beq_iff_eq, h, take_eq_and_length_eq_iff]

end Refmon
