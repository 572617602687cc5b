import Mathlib.Data.List.Infix
import Mathlib.Tactic.Common

/-!
# Absolute paths as lists of names

A path is a row of names, each behind a separator. Names are not empty and hold no separator, so
the names can be read back from the path, and one path is a component-wise prefix of another
exactly when the names are.
-/

namespace SlashPath

variable {α : Type} {sep : α}

/-- A name between two separators. -/
abbrev Name (sep : α) := {s : List α // s ≠ [] ∧ sep ∉ s}

/-- The names, each behind a separator. -/
def join : List (Name sep) → List α
  | [] => []
  | name :: names => sep :: name.val ++ join names

/-- The absolute path of a row of names; the empty row is the root. -/
def render (names : List (Name sep)) : List α :=
  if names = [] then [sep] else join names

/-- The end of a path, or a separator: where a component may stop. -/
def Boundary (sep : α) (rest : List α) : Prop := rest = [] ∨ rest.head? = some sep

@[simp] theorem join_nil : join ([] : List (Name sep)) = [] := rfl

@[simp] theorem join_cons (name : Name sep) (names : List (Name sep)) :
    join (name :: names) = sep :: name.val ++ join names := rfl

@[simp] theorem render_nil : render ([] : List (Name sep)) = [sep] := rfl

theorem render_of_ne_nil {names : List (Name sep)} (h : names ≠ []) : render names = join names :=
  if_neg h

/-- A longer row has a longer path. -/
theorem join_append (first rest : List (Name sep)) : join (first ++ rest) = join first ++ join rest := by
  induction first with
  | nil => rfl
  | cons name first ih => simp [ih]

/-- A row of names stops at component boundaries. -/
theorem boundary_join (names : List (Name sep)) : Boundary sep (join names) := by
  cases names with
  | nil => exact Or.inl rfl
  | cons name names => exact Or.inr rfl

/-- Rendered paths begin with the separator. -/
theorem head?_render (names : List (Name sep)) : (render names).head? = some sep := by
  cases names with
  | nil => rfl
  | cons name names => rfl

/-- The relative path of a row of names: no separator in front. -/
def relative (names : List (Name sep)) : List α := (join names).tail

/-- Behind a separator, a relative path is that of its names. -/
theorem cons_relative {names : List (Name sep)} (h : names ≠ []) : sep :: relative names = join names := by
  cases names with
  | nil => exact (h rfl).elim
  | cons name names => rfl

/-- Relative paths do not begin with the separator. -/
theorem head?_relative (names : List (Name sep)) : (relative names).head? ≠ some sep := by
  cases names with
  | nil => simp [relative]
  | cons name names =>
    rw [relative, join_cons, List.cons_append, List.tail_cons]
    cases hname : name.val with
    | nil => exact (name.property.1 hname).elim
    | cons c text =>
      rw [List.cons_append, List.head?_cons, Ne, Option.some.injEq]
      intro hsep
      apply name.property.2
      rw [hname, hsep]
      exact List.mem_cons_self

/-- A relative path put behind another path is the path of all the names, unless that other path is
the root's, which ends in a separator already. -/
theorem render_append_relative_iff {base names : List (Name sep)} (h : names ≠ []) :
    render base ++ sep :: relative names = render (base ++ names) ↔ base ≠ [] := by
  have hne : base ++ names ≠ [] := by simp [h]
  rw [cons_relative h, render_of_ne_nil hne, join_append]
  constructor
  · intro heq hbase
    rw [hbase, render_nil, join_nil, List.nil_append] at heq
    have hlength := congrArg List.length heq
    rw [List.length_append, List.length_singleton] at hlength
    omega
  · intro hbase
    rw [render_of_ne_nil hbase]

/-- A name ends where the next separator is. -/
theorem name_append_inj {s t u v : List α} (hs : sep ∉ s) (ht : sep ∉ t) (hu : Boundary sep u)
    (hv : Boundary sep v) (h : s ++ u = t ++ v) : s = t ∧ u = v := by
  induction s generalizing t with
  | nil =>
    cases t with
    | nil => exact ⟨rfl, h⟩
    | cons c t =>
      rw [List.nil_append] at h
      subst h
      rcases hu with hnil | hhead
      · cases hnil
      · rw [List.cons_append, List.head?_cons, Option.some.injEq] at hhead
        subst hhead
        exact (ht List.mem_cons_self).elim
  | cons c s ih =>
    cases t with
    | nil =>
      rw [List.nil_append] at h
      subst h
      rcases hv with hnil | hhead
      · cases hnil
      · rw [List.cons_append, List.head?_cons, Option.some.injEq] at hhead
        subst hhead
        exact (hs List.mem_cons_self).elim
    | cons d t =>
      rw [List.cons_append, List.cons_append, List.cons.injEq] at h
      obtain ⟨hhead, htail⟩ := ih (fun hmem => hs (List.mem_cons_of_mem c hmem))
        (fun hmem => ht (List.mem_cons_of_mem d hmem)) h.2
      rw [h.1, hhead]
      exact ⟨rfl, htail⟩

/-- The names can be read back. -/
theorem join_injective : Function.Injective (join : List (Name sep) → List α) := by
  intro left
  induction left with
  | nil =>
    intro right h
    cases right with
    | nil => rfl
    | cons name right => cases h
  | cons name left ih =>
    intro right h
    cases right with
    | nil => cases h
    | cons name' right =>
      rw [join_cons, join_cons, List.cons_append, List.cons_append, List.cons.injEq] at h
      obtain ⟨hname, hrest⟩ := name_append_inj name.property.2 name'.property.2
        (boundary_join left) (boundary_join right) h.2
      rw [Subtype.ext hname, ih hrest]

/-- The names can be read back from a rendered path. -/
theorem render_injective : Function.Injective (render : List (Name sep) → List α) := by
  have hsingle (names : List (Name sep)) : join names ≠ [sep] := by
    cases names with
    | nil => simp
    | cons name names => simp [name.property.1]
  intro left right h
  by_cases hleft : left = []
  · by_cases hright : right = []
    · rw [hleft, hright]
    · rw [hleft, render_nil, render_of_ne_nil hright] at h
      exact (hsingle right h.symm).elim
  · by_cases hright : right = []
    · rw [hright, render_nil, render_of_ne_nil hleft] at h
      exact (hsingle left h).elim
    · rw [render_of_ne_nil hleft, render_of_ne_nil hright] at h
      exact join_injective h

/-- A row of names that is cut at a boundary is cut between two names. -/
theorem exists_split_of_join_eq {names : List (Name sep)} {path rest : List α}
    (h : join names = path ++ rest) (hrest : Boundary sep rest) :
    ∃ first last, names = first ++ last ∧ path = join first := by
  induction names generalizing path with
  | nil =>
    rw [join_nil] at h
    exact ⟨[], [], rfl, (List.append_eq_nil_iff.mp h.symm).1⟩
  | cons name names ih =>
    cases path with
    | nil => exact ⟨[], name :: names, rfl, rfl⟩
    | cons c path =>
      rw [join_cons, List.cons_append, List.cons_append, List.cons.injEq] at h
      obtain ⟨hsep, htail⟩ := h
      subst hsep
      rcases List.append_eq_append_iff.mp htail with ⟨more, hpath, hjoin⟩ | ⟨more, hname, hmore⟩
      · obtain ⟨first, last, hnames, hfirst⟩ := ih hjoin
        refine ⟨name :: first, last, ?_, ?_⟩
        · rw [hnames, List.cons_append]
        · rw [hpath, hfirst, join_cons, List.cons_append]
      · -- the cut is inside the name, or at its end
        cases more with
        | nil =>
          refine ⟨[name], names, rfl, ?_⟩
          rw [List.append_nil] at hname
          rw [join_cons, join_nil, List.append_nil, hname]
        | cons d more =>
          rcases hrest with hnil | hhead
          · rw [hnil] at hmore
            cases hmore
          · rw [hmore, List.cons_append, List.head?_cons, Option.some.injEq] at hhead
            subst hhead
            refine (name.property.2 ?_).elim
            rw [hname]
            exact List.mem_append_right path List.mem_cons_self

/-- What a path is cut down to at a boundary is the path of an ancestor, or its own. -/
theorem exists_ancestor_of_render_eq {sub : List (Name sep)} {path rest : List α}
    (h : render sub = path ++ rest) (hrest : Boundary sep rest) (hne : path ≠ []) :
    ∃ base, path = render base ∧ (base = sub ∨ base ≠ [] ∧ base <+: sub) := by
  by_cases hsub : sub = []
  · cases path with
    | nil => exact (hne rfl).elim
    | cons c path =>
      rw [hsub, render_nil, List.cons_append, List.cons.injEq] at h
      have hpath := (List.append_eq_nil_iff.mp h.2.symm).1
      exact ⟨[], by rw [← h.1, hpath, render_nil], Or.inl hsub.symm⟩
  · rw [render_of_ne_nil hsub] at h
    obtain ⟨first, last, hsplit, hpath⟩ := exists_split_of_join_eq h hrest
    have hfirst : first ≠ [] := by
      intro hnil
      rw [hnil, join_nil] at hpath
      exact hne hpath
    rw [← render_of_ne_nil hfirst] at hpath
    exact ⟨first, hpath, Or.inr ⟨hfirst, last, hsplit.symm⟩⟩

/-- One path is a prefix of another up to a boundary exactly when its names are a prefix, except
that the root is a prefix of itself only. -/
theorem render_boundary_iff {base sub : List (Name sep)} :
    (∃ rest, render sub = render base ++ rest ∧ Boundary sep rest) ↔
      base = sub ∨ base ≠ [] ∧ base <+: sub := by
  constructor
  · intro ⟨rest, h, hrest⟩
    have hne : render base ≠ [] := by
      intro hnil
      have hhead := head?_render base
      rw [hnil] at hhead
      cases hhead
    obtain ⟨ancestor, hpath, hancestor⟩ := exists_ancestor_of_render_eq h hrest hne
    rwa [render_injective hpath]
  · intro h
    rcases h with heq | ⟨hne, last, hsplit⟩
    · exact ⟨[], by rw [heq, List.append_nil], Or.inl rfl⟩
    · refine ⟨join last, ?_, boundary_join last⟩
      have hsub : sub ≠ [] := by
        intro hnil
        rw [hnil] at hsplit
        exact hne (List.append_eq_nil_iff.mp hsplit).1
      rw [render_of_ne_nil hsub, render_of_ne_nil hne, ← hsplit, join_append]

/-- A path splits into the empty text before its first separator and its names. -/
theorem splitOn_join [BEq α] [LawfulBEq α] (names : List (Name sep)) :
    (join names).splitOn sep = [] :: names.map Subtype.val := by
  have hjoin (first : List α) :
      [sep].intercalate (first :: names.map Subtype.val) = first ++ join names := by
    induction names generalizing first with
    | nil => simp
    | cons name names ih =>
      rw [List.map_cons, List.intercalate_cons_cons, ih, join_cons]
      simp
  have hsplit := hjoin []
  rw [List.nil_append] at hsplit
  rw [← hsplit]
  apply List.splitOn_intercalate
  · intro text hmem
    rw [List.mem_cons, List.mem_map] at hmem
    rcases hmem with hnil | ⟨name, _, hname⟩
    · rw [hnil]
      exact List.not_mem_nil
    · rw [← hname]
      exact name.property.2
  · simp

/-- The components of any text: what is between its separators, where that is not empty. -/
def components [BEq α] (sep : α) (path : List α) : List (List α) :=
  (path.splitOn sep).filter fun text => !text.isEmpty

/-- The components of a rendered path are its names. -/
theorem components_render [BEq α] [LawfulBEq α] (names : List (Name sep)) :
    components sep (render names) = names.map Subtype.val := by
  by_cases hnil : names = []
  · have hsplit : [sep].splitOn sep = [[], []] := by
      have hroot : [sep].intercalate [[], []] = [sep] := rfl
      rw [← hroot]
      exact List.splitOn_intercalate _ (by simp) (by simp)
    rw [hnil, render_nil, List.map_nil, components, hsplit]
    rfl
  · rw [render_of_ne_nil hnil, components, splitOn_join, List.filter_cons_of_neg (by simp),
      List.filter_eq_self]
    intro text hmem
    obtain ⟨name, _, hname⟩ := List.mem_map.mp hmem
    rw [← hname]
    simp [name.property.1]

/-- One rendered path lies above another, component by component, when its names do. -/
theorem components_prefix_iff [BEq α] [LawfulBEq α] {base sub : List (Name sep)} :
    components sep (render base) <+: components sep (render sub) ↔ base <+: sub := by
  rw [components_render, components_render, List.prefix_map_iff_of_injective Subtype.val_injective]

/-- A text is a prefix of a path up to a boundary exactly when it is the path, or that of a row of
names above it other than the root. -/
theorem boundary_iff [BEq α] [LawfulBEq α] {path : List α} {sub : List (Name sep)} (hne : path ≠ []) :
    (∃ rest, render sub = path ++ rest ∧ Boundary sep rest) ↔
      path = render sub ∨ (∃ base : List (Name sep), path = render base) ∧ path ≠ [sep] ∧
        components sep path <+: components sep (render sub) := by
  have hroot (base : List (Name sep)) : render base ≠ [sep] ↔ base ≠ [] := by
    rw [← render_nil, Ne, render_injective.eq_iff]
  constructor
  · intro ⟨rest, h, hrest⟩
    obtain ⟨base, hpath, hancestor⟩ := exists_ancestor_of_render_eq h hrest hne
    rcases hancestor with hsame | ⟨hbase, hpre⟩
    · rw [hpath, hsame]
      exact Or.inl rfl
    · rw [hpath, components_prefix_iff]
      exact Or.inr ⟨⟨base, rfl⟩, (hroot base).mpr hbase, hpre⟩
  · intro h
    rcases h with hsame | ⟨⟨base, hpath⟩, hnotRoot, hpre⟩
    · exact ⟨[], by rw [hsame, List.append_nil], Or.inl rfl⟩
    · rw [hpath] at hnotRoot hpre ⊢
      rw [components_prefix_iff] at hpre
      exact render_boundary_iff.mpr (Or.inr ⟨(hroot base).mp hnotRoot, hpre⟩)

end SlashPath
