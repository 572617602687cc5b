import Refmon.Library.Extents
import Refmon.Library.Fitting
import Refmon.Library.ReadLoop
import Refmon.Memory
import Refmon.SyscallCodes

/-!
# Reading the registry's proc file

`_read_proc` of `procio.c` for `refmon-list`. It renders the registry, a line for an entry, to a page
on its stack, up to the first line that does not fit, and copies the lines before it to the user in
one piece: to a buffer that is too small for them, or from another position than zero, it gives
nothing.
-/

namespace Refmon

open Extents Fitting ReadLoop

def PAGE_SIZE : ℕ := 4096

/-- The line of an entry: `"- %lu %s -> %lu %s\n"`. -/
def registryLine (nodeP : RegistryEntry) : List UInt8 :=
  [45, 32] ++ Decimal.printNat nodeP.registered.inoNo.toNat ++ [32] ++ nodeP.registered.path.bytes ++
    [32, 45, 62, 32] ++ Decimal.printNat nodeP.resolved.inoNo.toNat ++ [32] ++
    nodeP.resolved.path.bytes ++ [10]

/-- `snprintf` of a text to `out + start`: the length of the text, and memory with as much of it as
leaves the size a byte for the terminator, and the terminator. -/
def snprintf (out : Memory) (start size : ℕ) (text : List UInt8) : ℤ × Memory :=
  (text.length, if size = 0 then out else out.write start (text.take (size - 1) ++ [0]))

/-- The page on the stack and the counters of the loop in `_read_proc`. -/
structure Listing where
  out : Memory
  outLen : ℤ
  decrement : ℤ

/-- The loop of `_read_proc`. -/
def listEntries : List RegistryEntry → Listing → Except ℤ Listing
  | [], listing => .ok listing
  | nodeP :: rest, listing =>
    let (retSnprintf, out) :=
      snprintf listing.out listing.outLen.toNat listing.decrement.toNat (registryLine nodeP)
    if retSnprintf < 0 then .error (- EIO)
    else if retSnprintf ≥ listing.decrement then .ok { listing with out := out }
    else listEntries rest ⟨out, listing.outLen + retSnprintf, listing.decrement - retSnprintf⟩

/-- `read_proc_list`, on whatever lies in the page before. -/
def readProcList (registry : List RegistryEntry) (out : Memory) (count pos : ℕ) (copies : Bool) :
    Except ℤ (List UInt8 × ℕ) :=
  match listEntries registry ⟨out, 0, PAGE_SIZE⟩ with
  | .error err => .error err
  | .ok listing => copyOut ((List.range listing.outLen.toNat).map listing.out) count pos copies

/-- The counters share out the page, of which something is left, and the text is at its start. -/
structure Listing.Shows (listing : Listing) (text : List UInt8) : Prop where
  length : listing.outLen = text.length
  shares : listing.outLen + listing.decrement = PAGE_SIZE
  left : 0 < listing.decrement
  holds : Holds listing.out 0 text

/-- The page before the loop shows nothing. -/
theorem shows_start (out : Memory) : Listing.Shows ⟨out, 0, PAGE_SIZE⟩ [] :=
  ⟨rfl, Int.zero_add _, (by decide : (0 : ℤ) < PAGE_SIZE), fun _ h => absurd h (Nat.not_lt_zero _)⟩

/-- One `snprintf` of the loop leaves the text in the page, and puts its own behind it if that fits with
its terminator. -/
theorem Listing.Shows.snprintf {listing : Listing} {text : List UInt8} (h : listing.Shows text)
    (next : List UInt8) :
    Holds (snprintf listing.out listing.outLen.toNat listing.decrement.toNat next).2 0 text ∧
      (next.length < listing.decrement →
        Holds (snprintf listing.out listing.outLen.toNat listing.decrement.toNat next).2 0 (text ++ next)) := by
  have hstart : listing.outLen.toNat = text.length := by rw [h.length, Int.toNat_natCast]
  have hleft := h.left
  have hwritten := holds_write h.holds (next.take (listing.decrement.toNat - 1) ++ [0])
  rw [Refmon.snprintf, hstart, if_neg (by omega)]
  refine ⟨hwritten.of_append, fun hfits => ?_⟩
  have hwhole : next.take (listing.decrement.toNat - 1) = next := List.take_of_length_le (by omega)
  rw [hwhole, ← List.append_assoc] at hwritten
  rw [hwhole]
  exact hwritten.of_append

/-- An iteration whose line fits shows it behind the text. -/
theorem Listing.Shows.next {listing : Listing} {text : List UInt8} (h : listing.Shows text)
    {next : List UInt8} (hfits : next.length < listing.decrement) :
    Listing.Shows ⟨(Refmon.snprintf listing.out listing.outLen.toNat listing.decrement.toNat next).2,
      listing.outLen + next.length, listing.decrement - next.length⟩ (text ++ next) := by
  have hlength := h.length
  have hshares := h.shares
  refine ⟨?_, ?_, ?_, (h.snprintf next).2 hfits⟩
  · rw [List.length_append, hlength, Int.natCast_add]
  · dsimp only
    omega
  · dsimp only
    omega

/-- The loop goes on to show the lines that fit what is left of the page. -/
theorem listEntries_shows (registry : List RegistryEntry) {listing : Listing} {text : List UInt8}
    (h : listing.Shows text) :
    ∃ listing', listEntries registry listing = .ok listing' ∧ listing'.Shows
      (text ++ (fitting listing.decrement.toNat (registry.map registryLine)).flatten) := by
  induction registry generalizing listing text with
  | nil => exact ⟨listing, rfl, by rwa [List.map_nil, fitting, List.flatten_nil, List.append_nil]⟩
  | cons nodeP rest ih =>
    have hret : (snprintf listing.out listing.outLen.toNat listing.decrement.toNat
        (registryLine nodeP)).1 = (registryLine nodeP).length := rfl
    have hleft := h.left
    rw [listEntries, List.map_cons, fitting]
    dsimp only
    rw [hret, if_neg (by omega)]
    by_cases hfits : (registryLine nodeP).length < listing.decrement
    · have hrest : (listing.decrement - (registryLine nodeP).length).toNat =
          listing.decrement.toNat - (registryLine nodeP).length := by omega
      rw [if_neg (by omega), if_pos (by omega), List.flatten_cons, ← List.append_assoc, ← hrest]
      exact ih (h.next hfits)
    · rw [if_pos (by omega), if_neg (by omega), List.flatten_nil, List.append_nil]
      exact ⟨_, rfl, h.length, h.shares, hleft, (h.snprintf _).1⟩

/-- The lines that are shown: those of the longest prefix of the registry that are shorter than a page
together. -/
def shownLines (registry : List RegistryEntry) : List (List UInt8) :=
  fitting PAGE_SIZE (registry.map registryLine)

/-- A call copies the lines that are shown, whatever lay in the page before. -/
theorem readProcList_eq (registry : List RegistryEntry) (out : Memory) (count pos : ℕ) (copies : Bool) :
    readProcList registry out count pos copies =
      copyOut (shownLines registry).flatten count pos copies := by
  obtain ⟨listing, hrun, hshows⟩ := listEntries_shows registry (shows_start out)
  have htext := hshows.holds.map_range
  rw [readProcList, hrun]
  dsimp only
  rw [hshows.length, Int.toNat_natCast, htext]
  rfl

/-- A call of a reader, whose copies succeed and who finds something else on the stack each time. The
state is the number of calls before it, and the position. -/
def readList (registry : List RegistryEntry) (stack : ℕ → Memory) (count : ℕ) (call : ℕ × ℕ) :
    Except ℤ (List UInt8 × ℕ × ℕ) :=
  (readProcList registry (stack call.1) count call.2 true).map fun (bytes, pos) => (bytes, call.1 + 1, pos)

/-- Reads until one gives nothing give the lines that are shown if the first one asks for as much, else
nothing. -/
theorem readList_readsAll (registry : List RegistryEntry) (stack : ℕ → Memory) (counts : ℕ → ℕ) :
    ReadsAll (readList registry stack) counts 0 (0, 0)
      (if (shownLines registry).flatten.length ≤ counts 0 then (shownLines registry).flatten else []) := by
  have hread (call : ℕ × ℕ) (count : ℕ) : readList registry stack count call =
      if call.2 > 0 ∨ count < (shownLines registry).flatten.length then .ok ([], call.1 + 1, call.2)
      else .ok ((shownLines registry).flatten, call.1 + 1, call.2 + (shownLines registry).flatten.length) := by
    rw [readList, readProcList_eq, copyOut]
    split <;> rfl
  split
  · rename_i hfits
    have hfirst := hread (0, 0) (counts 0)
    rw [if_neg (by simpa using hfits)] at hfirst
    by_cases hnil : (shownLines registry).flatten = []
    · rw [hnil] at hfirst ⊢
      exact .done hfirst
    · have hpos := List.length_pos_iff.mpr hnil
      have hsecond := hread (1, (shownLines registry).flatten.length) (counts 1)
      rw [if_pos (Or.inl hpos)] at hsecond
      rw [Nat.zero_add, Nat.zero_add] at hfirst
      have hall := ReadsAll.more hfirst hnil hfits (.done hsecond)
      rwa [List.append_nil] at hall
  · rename_i hsmall
    have hfirst := hread (0, 0) (counts 0)
    rw [if_pos (Or.inr (Nat.lt_of_not_le hsmall))] at hfirst
    exact .done hfirst

/-- The reads give the lines of the whole registry exactly if these are shorter than a page and not
longer than what the first read asks for. -/
theorem readsAll_whole_iff (registry : List RegistryEntry) (stack : ℕ → Memory) (counts : ℕ → ℕ) :
    ReadsAll (readList registry stack) counts 0 (0, 0) (registry.map registryLine).flatten ↔
      (registry.map registryLine).flatten.length < PAGE_SIZE ∧
        (registry.map registryLine).flatten.length ≤ counts 0 := by
  have hlongest := fitting_longest (by decide : 0 < PAGE_SIZE) (registry.map registryLine)
  have hreads := readList_readsAll registry stack counts
  constructor
  · intro hwhole
    have hsame := hreads.unique hwhole
    split at hsame
    · rename_i hcount
      exact ⟨hlongest.flatten_eq_iff.mp hsame, hsame ▸ hcount⟩
    · rename_i hsmall
      have hbelow : (registry.map registryLine).flatten.length < PAGE_SIZE := by
        rw [← hsame]
        decide
      have hall : (shownLines registry).flatten = (registry.map registryLine).flatten :=
        hlongest.flatten_eq_iff.mpr hbelow
      rw [hall, ← hsame] at hsmall
      exact absurd (Nat.zero_le _) hsmall
  · rintro ⟨hbelow, hcount⟩
    have hall : (shownLines registry).flatten = (registry.map registryLine).flatten :=
      hlongest.flatten_eq_iff.mpr hbelow
    rwa [hall, if_pos hcount] at hreads

/-- Whatever the counts, reads until one gives nothing give the lines of the longest prefix of the
registry that are shorter than a page together, if the first read asks for as much, and else nothing.
They give the lines of the whole registry exactly if these are shorter than a page and not longer than
what the first read asks for. -/
theorem registry_reads_back (registry : List RegistryEntry) (stack : ℕ → Memory) (counts : ℕ → ℕ) :
    (∃ shown, LongestBelow PAGE_SIZE (registry.map registryLine) shown ∧
      ReadsAll (readList registry stack) counts 0 (0, 0)
        (if shown.flatten.length ≤ counts 0 then shown.flatten else [])) ∧
    (ReadsAll (readList registry stack) counts 0 (0, 0) (registry.map registryLine).flatten ↔
      (registry.map registryLine).flatten.length < PAGE_SIZE ∧
        (registry.map registryLine).flatten.length ≤ counts 0) := by
  refine ⟨⟨shownLines registry, fitting_longest (by decide) _, ?_⟩, readsAll_whole_iff registry stack counts⟩
  exact readList_readsAll registry stack counts

section LongRegistry

/-- An entry of a file `/f`. -/
def smallEntry : RegistryEntry := ⟨⟨lit "/f", 2⟩, ⟨lit "/f", 2⟩⟩

theorem length_registryLine_smallEntry : (registryLine smallEntry).length = 15 := by decide +kernel

/-- Reads of a byte at a time give nothing of a registry of one entry, and reads of a page at a time do
not give a registry of three hundred, whose lines fill a page. -/
theorem registry_not_read_back :
    ¬ ReadsAll (readList [smallEntry] fun _ _ => 0) (fun _ => 1) 0 (0, 0)
        ([smallEntry].map registryLine).flatten ∧
      ¬ ReadsAll (readList (List.replicate 300 smallEntry) fun _ _ => 0) (fun _ => PAGE_SIZE) 0 (0, 0)
        ((List.replicate 300 smallEntry).map registryLine).flatten := by
  constructor
  · intro hreads
    have hcount := ((readsAll_whole_iff _ _ _).mp hreads).2
    rw [List.map_singleton, List.flatten_singleton, length_registryLine_smallEntry] at hcount
    omega
  · intro hreads
    have hbelow := ((readsAll_whole_iff _ _ _).mp hreads).1
    rw [List.map_replicate, List.length_flatten, List.map_replicate, List.sum_replicate,
      length_registryLine_smallEntry] at hbelow
    exact absurd hbelow (by decide)

end LongRegistry

end Refmon
