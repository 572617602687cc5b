import Mathlib.Data.List.Basic
import Mathlib.Tactic.Common

/-!
# Lines of separated fields

A record is written on a line of its own, with a separator between its fields. A text that ends
with the end of a line is split at the line ends, and each line at the separators; it gives one
record back exactly if it is the line of that record and none of the two occurs in a field.
-/

namespace SeparatedText

variable {α : Type*} {sep stop : α}

/-- The fields of a record, with separators between them and an end of line behind them. -/
def line (sep stop : α) (fields : List (List α)) : List α := [sep].intercalate fields ++ [stop]

/-- A field lies in the text. -/
theorem infix_intercalate {fields : List (List α)} {field : List α} (h : field ∈ fields) :
    field <:+: [sep].intercalate fields := by
  induction fields with
  | nil => cases h
  | cons first fields ih =>
    cases fields with
    | nil =>
      rw [List.intercalate_singleton]
      exact List.mem_singleton.mp h ▸ List.infix_rfl
    | cons next fields =>
      rw [List.intercalate_cons_cons]
      rcases List.mem_cons.mp h with heq | hmem
      · rw [heq, List.append_assoc]
        exact (List.prefix_append first _).isInfix
      · exact (ih hmem).trans (List.suffix_append _ _).isInfix

/-- A field lies in the line of its record. -/
theorem infix_line {fields : List (List α)} {field : List α} (h : field ∈ fields) :
    field <:+: line sep stop fields :=
  (infix_intercalate h).trans (List.prefix_append _ _).isInfix

/-- What occurs in the text between the line ends is the separator or occurs in a field. -/
theorem exists_field_of_mem {fields : List (List α)} {char : α} (h : char ∈ [sep].intercalate fields) :
    char = sep ∨ ∃ field ∈ fields, char ∈ field := by
  induction fields with
  | nil => cases h
  | cons first fields ih =>
    cases fields with
    | nil =>
      rw [List.intercalate_singleton] at h
      exact Or.inr ⟨first, List.mem_cons_self, h⟩
    | cons next fields =>
      rw [List.intercalate_cons_cons, List.mem_append, List.mem_append, List.mem_singleton] at h
      rcases h with (hfirst | hsep) | hrest
      · exact Or.inr ⟨first, List.mem_cons_self, hfirst⟩
      · exact Or.inl hsep
      · rcases ih hrest with hsep | ⟨field, hfield, hchar⟩
        · exact Or.inl hsep
        · exact Or.inr ⟨field, List.mem_cons_of_mem first hfield, hchar⟩

variable [BEq α]

/-- The records of a text: what lies before each end of line, split at the separators. -/
def records (sep stop : α) (text : List α) : List (List (List α)) :=
  (text.splitOn stop).dropLast.map fun record => record.splitOn sep

variable [LawfulBEq α]

/-- No part of a split text contains what it was split at. -/
theorem not_mem_of_mem_splitOn {text part : List α} (h : part ∈ text.splitOn sep) : sep ∉ part := by
  induction text generalizing part with
  | nil =>
    rw [List.splitOn_nil, List.mem_singleton] at h
    rw [h]
    exact List.not_mem_nil
  | cons char text ih =>
    rw [List.splitOn_cons_eq_if_modifyHead] at h
    split at h
    · rcases List.mem_cons.mp h with hnil | hmem
      · rw [hnil]
        exact List.not_mem_nil
      · exact ih hmem
    · rename_i hchar
      obtain ⟨first, parts, hsplit⟩ := List.exists_cons_of_ne_nil (List.splitOn_ne_nil sep text)
      rw [hsplit, List.modifyHead_cons] at h
      rcases List.mem_cons.mp h with hfirst | hmem
      · rw [hfirst, List.mem_cons, not_or]
        refine ⟨fun heq => hchar (beq_iff_eq.mpr heq.symm), ih ?_⟩
        rw [hsplit]
        exact List.mem_cons_self
      · apply ih
        rw [hsplit]
        exact List.mem_cons_of_mem first hmem

/-- A text that ends with the end of a line gives the records before it. -/
theorem records_append_stop (text : List α) :
    records sep stop (text ++ [stop]) = (text.splitOn stop).map fun record => record.splitOn sep := by
  rw [records, List.splitOn_append_cons_self, List.splitOn_nil, List.dropLast_concat]

/-- The records of a text are those up to an end of line and those behind it. -/
theorem records_append (first rest : List α) :
    records sep stop (first ++ stop :: rest) = records sep stop (first ++ [stop]) ++ records sep stop rest := by
  rw [records_append_stop, records, List.splitOn_append_cons_self,
    List.dropLast_append_of_ne_nil (List.splitOn_ne_nil _ _), List.map_append, records]

/-- A text that ends with the end of a line gives one record back exactly if it is the line of that
record, in whose fields neither the separator nor the end of a line occurs. -/
theorem records_eq_singleton_iff (hne : sep ≠ stop) {text : List α} {fields : List (List α)} :
    text.getLast? = some stop ∧ records sep stop text = [fields] ↔
      text = line sep stop fields ∧ fields ≠ [] ∧ ∀ field ∈ fields, sep ∉ field ∧ stop ∉ field := by
  constructor
  · rintro ⟨hlast, hrecords⟩
    obtain ⟨body, htext⟩ := List.getLast?_eq_some_iff.mp hlast
    rw [htext, records_append_stop] at hrecords
    obtain ⟨record, hbody, hfields⟩ := List.map_eq_singleton_iff.mp hrecords
    have hwhole : [stop].intercalate (body.splitOn stop) = body := List.intercalate_splitOn stop
    rw [hbody, List.intercalate_singleton] at hwhole
    rw [hwhole] at hbody hfields
    have hstop : stop ∉ body := not_mem_of_mem_splitOn (hbody ▸ List.mem_cons_self)
    have hjoined : [sep].intercalate fields = body := by rw [← hfields, List.intercalate_splitOn]
    refine ⟨by rw [htext, line, hjoined], ?_, fun field hfield => ⟨?_, fun hmem => hstop ?_⟩⟩
    · rw [← hfields]
      exact List.splitOn_ne_nil sep body
    · rw [← hfields] at hfield
      exact not_mem_of_mem_splitOn hfield
    · rw [← hjoined]
      exact (infix_intercalate hfield).subset hmem
  · rintro ⟨htext, hnil, hfields⟩
    have hstop : stop ∉ [sep].intercalate fields := by
      intro hmem
      rcases exists_field_of_mem hmem with heq | ⟨field, hfield, hchar⟩
      · exact hne heq.symm
      · exact (hfields field hfield).2 hchar
    rw [htext, line]
    refine ⟨List.getLast?_concat, ?_⟩
    rw [records_append_stop, List.splitOn_eq_singleton hstop, List.map_singleton,
      List.splitOn_intercalate sep (fun field hfield => (hfields field hfield).1) hnil]

/-- A record is written back as it is: it has fields, and neither the separator nor the end of a line
occurs in them. -/
def Separable (sep stop : α) (fields : List (List α)) : Prop :=
  fields ≠ [] ∧ ∀ field ∈ fields, sep ∉ field ∧ stop ∉ field

/-- The lines of such records, one behind the other, give the records back. -/
theorem records_flatten (hne : sep ≠ stop) {rows : List (List (List α))}
    (h : ∀ fields ∈ rows, Separable sep stop fields) :
    records sep stop (rows.map (line sep stop)).flatten = rows := by
  induction rows with
  | nil =>
    rw [List.map_nil, List.flatten_nil, records, List.splitOn_nil]
    rfl
  | cons fields rows ih =>
    have hfields := h fields List.mem_cons_self
    have hone := ((records_eq_singleton_iff hne).mpr ⟨rfl, hfields⟩).2
    rw [line] at hone
    rw [List.map_cons, List.flatten_cons, line, List.append_assoc, List.singleton_append, records_append,
      hone, ih fun fields hmem => h fields (List.mem_cons_of_mem _ hmem)]
    rfl

end SeparatedText
