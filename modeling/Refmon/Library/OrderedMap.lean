import Mathlib.Data.List.Nodup
import Mathlib.Tactic.Common

/-!
# Finite maps in insertion order

The values carry their own keys. A map is the list of its values, oldest first, together with
the proof that no two of them have the same key.
-/

/-- Values with pairwise distinct keys, in insertion order. -/
structure OrderedMap {κ ν : Type*} (key : ν → κ) where
  entries : List ν
  nodup : (entries.map key).Nodup

namespace OrderedMap

variable {κ ν : Type*} {key : ν → κ}

/-- The keys present, in insertion order. -/
def keys (m : OrderedMap key) : List κ := m.entries.map key

/-- The map without values. -/
def empty (key : ν → κ) : OrderedMap key := ⟨[], List.nodup_nil⟩

/-- Insert a value under a key that is not present. -/
def push (m : OrderedMap key) (v : ν) (h : key v ∉ m.keys) : OrderedMap key where
  entries := m.entries ++ [v]
  nodup := by
    rw [List.map_append, List.map_singleton]
    exact List.nodup_append.mpr ⟨m.nodup, List.nodup_singleton _, fun a ha b hb => by
      rw [List.mem_singleton.mp hb]
      exact fun heq => h (heq ▸ ha)⟩

/-- Remove the value under a key, if there is one. -/
def delete [DecidableEq κ] (m : OrderedMap key) (k : κ) : OrderedMap key where
  entries := m.entries.filter fun v => key v ≠ k
  nodup := m.nodup.sublist (List.filter_sublist.map key)

@[simp] theorem keys_push (m : OrderedMap key) (v : ν) (h : key v ∉ m.keys) :
    (m.push v h).keys = m.keys ++ [key v] := by
  simp [keys, push]

/-- A key has one value: what precedes it and what follows it has other keys. -/
theorem split_of_mem {m : OrderedMap key} {v : ν} {before after : List ν}
    (h : m.entries = before ++ v :: after) : ∀ w ∈ before ++ after, key w ≠ key v := by
  have hnodup := m.nodup
  rw [h, List.map_append, List.map_cons, List.nodup_middle, List.nodup_cons, ← List.map_append] at hnodup
  intro w hw heq
  exact hnodup.1 (List.mem_map.mpr ⟨w, hw, heq⟩)

section Lookup

variable [DecidableEq κ]

theorem entries_delete (m : OrderedMap key) (k : κ) :
    (m.delete k).entries = m.entries.filter fun v => key v ≠ k := rfl

/-- A deleted key is not present any more; all other keys stay. -/
theorem mem_keys_delete (m : OrderedMap key) (k k' : κ) :
    k' ∈ (m.delete k).keys ↔ k' ∈ m.keys ∧ k' ≠ k := by
  simp only [keys, delete, List.mem_map, List.mem_filter, decide_not, Bool.not_eq_true',
    decide_eq_false_iff_not]
  constructor
  · intro ⟨v, ⟨hv, hne⟩, hkey⟩
    exact ⟨⟨v, hv, hkey⟩, hkey ▸ hne⟩
  · intro ⟨⟨v, hv, hkey⟩, hne⟩
    exact ⟨v, ⟨hv, hkey ▸ hne⟩, hkey⟩

/-- A search for a key succeeds exactly when the key is present. -/
theorem find_isSome_iff (m : OrderedMap key) (k : κ) :
    (∃ v, m.entries.find? (fun v => key v = k) = some v) ↔ k ∈ m.keys := by
  rw [← Option.isSome_iff_exists, List.find?_isSome]
  simp [keys]

/-- The value found is in the map, under the key that was looked for. -/
theorem key_of_find {m : OrderedMap key} {k : κ} {v : ν}
    (h : m.entries.find? (fun v => key v = k) = some v) : v ∈ m.entries ∧ key v = k :=
  ⟨List.mem_of_find?_eq_some h, by simpa using List.find?_some h⟩

/-- Deleting a key that is present takes out its value and leaves the others in place. -/
theorem delete_split {m : OrderedMap key} {v : ν} {before after : List ν}
    (h : m.entries = before ++ v :: after) : (m.delete (key v)).entries = before ++ after := by
  have hother := split_of_mem h
  have hkeep (l : List ν) (hl : ∀ w ∈ l, w ∈ before ++ after) :
      l.filter (fun w => key w ≠ key v) = l := by
    apply List.filter_eq_self.mpr
    intro w hw
    simpa using hother w (hl w hw)
  have hbefore := hkeep before fun w hw => List.mem_append_left after hw
  have hafter := hkeep after fun w hw => List.mem_append_right before hw
  rw [entries_delete, h, List.filter_append, List.filter_cons_of_neg (by simp), hbefore, hafter]

/-- Erasing a value of the map, as a list, is deleting its key. -/
theorem erase_eq_delete [DecidableEq ν] (m : OrderedMap key) {v : ν} (h : v ∈ m.entries) :
    m.entries.erase v = (m.delete (key v)).entries := by
  obtain ⟨before, after, hsplit⟩ := List.append_of_mem h
  have hnot : v ∉ before := fun hmem =>
    split_of_mem hsplit v (List.mem_append_left after hmem) rfl
  rw [delete_split hsplit, hsplit, List.erase_append_right _ hnot, List.erase_cons_head]

/-- Deleting the key of a new value brings the map back. -/
theorem delete_push (m : OrderedMap key) (v : ν) (h : key v ∉ m.keys) :
    ((m.push v h).delete (key v)).entries = m.entries := by
  have hsplit : (m.push v h).entries = m.entries ++ v :: [] := rfl
  rw [delete_split hsplit, List.append_nil]

/-- Only the key of a new value brings the map back. -/
theorem eq_of_delete_push {m : OrderedMap key} {v : ν} {h : key v ∉ m.keys} {k : κ}
    (hback : ((m.push v h).delete k).entries = m.entries) : k = key v := by
  by_contra hne
  have hpresent : key v ∈ ((m.push v h).delete k).keys := by
    rw [mem_keys_delete, keys_push]
    exact ⟨List.mem_append_right _ List.mem_cons_self, fun heq => hne heq.symm⟩
  rw [keys, hback] at hpresent
  exact h hpresent

end Lookup

end OrderedMap
