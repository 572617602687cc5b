import Refmon.RegistryListing

/-!
# The page that the registry is printed to

Each iteration of the loop in `_read_proc` prints a line behind the lines before it, in what is left
of the page. The line that ends the loop leaves its beginning on the page, behind what the user is
given.
-/

namespace Refmon

open Extents Fitting

/-- The loop over the registry, with whatever lay on the page before, gets to its head: the entries that
are left, and the page with its counters. -/
inductive LoopHead (registry : List RegistryEntry) (out : Memory) : List RegistryEntry → Listing → Prop
  | enter : LoopHead registry out registry ⟨out, 0, PAGE_SIZE⟩
  | again {nodeP : RegistryEntry} {rest : List RegistryEntry} {listing : Listing} {retSnprintf : ℤ}
      {out' : Memory} : LoopHead registry out (nodeP :: rest) listing →
      snprintf listing.out listing.outLen.toNat listing.decrement.toNat (registryLine nodeP) =
        (retSnprintf, out') →
      ¬ retSnprintf < 0 → ¬ retSnprintf ≥ listing.decrement →
      LoopHead registry out rest ⟨out', listing.outLen + retSnprintf, listing.decrement - retSnprintf⟩

variable {registry rest : List RegistryEntry} {out : Memory} {listing : Listing}

/-- The loop goes on from its head. -/
theorem LoopHead.listEntries_eq (h : LoopHead registry out rest listing) :
    listEntries registry ⟨out, 0, PAGE_SIZE⟩ = listEntries rest listing := by
  induction h with
  | enter => rfl
  | again _ hprint hpos hfits ih =>
    rw [ih, listEntries, hprint]
    dsimp only
    rw [if_neg hpos, if_neg hfits]

/-- At the head of the loop the page shows the lines of the entries before. -/
theorem LoopHead.shows (h : LoopHead registry out rest listing) :
    ∃ before, registry = before ++ rest ∧ listing.Shows (before.map registryLine).flatten := by
  induction h with
  | enter => exact ⟨[], rfl, shows_start out⟩
  | @again nodeP rest listing retSnprintf out' _ hprint _ hfits ih =>
    obtain ⟨before, hsplit, hshows⟩ := ih
    obtain ⟨rfl, rfl⟩ := Prod.mk.inj hprint
    refine ⟨before ++ [nodeP], ?_, ?_⟩
    · rw [hsplit, List.append_assoc, List.singleton_append]
    · rw [List.map_append, List.map_singleton, List.flatten_append, List.flatten_singleton]
      exact hshows.next (Int.not_le.mp hfits)

/-- One `snprintf` of the loop writes to the page only. -/
theorem snprintf_inPage {text : List UInt8} (h : listing.Shows text) (next : List UInt8) {i : ℕ}
    (hi : PAGE_SIZE ≤ i) :
    (snprintf listing.out listing.outLen.toNat listing.decrement.toNat next).2 i = listing.out i := by
  have hlength := h.length
  have hshares := h.shares
  have hleft := h.left
  rw [snprintf, if_neg (by omega)]
  apply write_of_ge
  rw [List.length_append, List.length_take, List.length_singleton]
  omega

/-- The loop writes to the page only. -/
theorem listEntries_inPage {after : Listing} {text : List UInt8} (h : listing.Shows text)
    (hrun : listEntries rest listing = .ok after) {i : ℕ} (hi : PAGE_SIZE ≤ i) :
    after.out i = listing.out i := by
  induction rest generalizing listing text with
  | nil =>
    cases hrun
    rfl
  | cons nodeP rest ih =>
    have hpage := snprintf_inPage h (registryLine nodeP) hi
    rw [listEntries] at hrun
    dsimp only at hrun
    split at hrun
    · cases hrun
    · split at hrun
      · cases hrun
        exact hpage
      · rename_i hfits
        rw [ih (h.next (Int.not_le.mp hfits)) hrun]
        exact hpage

/-- What a call copies is nothing, or the lines that are shown. -/
theorem readProcList_chunk {count pos pos' : ℕ} {copies : Bool} {bytes : List UInt8}
    (h : readProcList registry out count pos copies = .ok (bytes, pos')) :
    bytes = [] ∨ bytes = (shownLines registry).flatten := by
  rw [readProcList_eq, copyOut] at h
  split at h
  · cases h
    exact Or.inl rfl
  · split at h
    · cases h
    · cases h
      exact Or.inr rfl

/-- Whenever the loop gets to its head, the counters share out the page, of which something is left. It
ends with the lines of the longest prefix of the registry that are shorter than a page together, whole
and in order, in what the first counter covers; it has written to nothing but the page; and nothing but
these lines is ever copied. -/
theorem registry_rendered (registry : List RegistryEntry) (out : Memory) :
    (∀ rest listing, LoopHead registry out rest listing →
      listing.outLen + listing.decrement = PAGE_SIZE ∧ 0 < listing.decrement) ∧
    ∃ listing shown, listEntries registry ⟨out, 0, PAGE_SIZE⟩ = .ok listing ∧
      LongestBelow PAGE_SIZE (registry.map registryLine) shown ∧
      listing.outLen = shown.flatten.length ∧ listing.out.region listing.outLen.toNat = shown.flatten ∧
      (∀ i, PAGE_SIZE ≤ i → listing.out i = out i) ∧
      ∀ count pos copies bytes pos', readProcList registry out count pos copies = .ok (bytes, pos') →
        bytes = [] ∨ bytes = shown.flatten := by
  constructor
  · intro rest listing hhead
    obtain ⟨before, -, hshows⟩ := hhead.shows
    exact ⟨hshows.shares, hshows.left⟩
  · obtain ⟨listing, hrun, hshows⟩ := listEntries_shows registry (shows_start out)
    refine ⟨listing, shownLines registry, hrun, fitting_longest (by decide) _, hshows.length, ?_, ?_, ?_⟩
    · rw [hshows.length, Int.toNat_natCast]
      exact hshows.holds.map_range
    · exact fun i hi => listEntries_inPage (shows_start out) hrun hi
    · exact fun _ _ _ _ _ hread => readProcList_chunk hread

end Refmon
