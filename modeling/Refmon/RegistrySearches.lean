import Refmon.RegistryReaders

/-!
# What a hook can miss

Hooks search the registry without the lock. A search that nothing interrupts is `is_eligible`. Amid any
calls, it does not miss an entry that stays registered, and what it finds was registered at some moment;
but it crashes when it goes on from an entry that has been removed meanwhile.
-/

namespace Refmon

open LinkedList ListReaders Runs Traces Wp

variable {ι δ : Type} {ids : ι → PathIdentifier} {sha256 : List UInt8 → Digest} {s : Monitor ι} {k k' : Kernel}
  {search : ι} {n : ℕ} {entry : RegistryEntry} {happenings : List (Happening ι δ)}

/-- A test in the list is a test of the entry. -/
theorem Happening.action_eq_test {happening : Happening ι δ} {hit : Bool}
    (h : happening.action ids s = .test search hit) :
    ∃ dir, happening = .test search dir ∧ hit = s.hits ids search dir := by
  cases happening with
  | test other dir =>
    obtain ⟨rfl, rfl⟩ := Action.test.inj h
    exact ⟨dir, rfl, rfl⟩
  | call e => cases h
  | write =>
    simp only [Happening.action] at h
    split at h
    · cases h
    · rename_i update _ _ _
      cases update <;> cases h
    · cases h
  | enter other =>
    simp only [Happening.action] at h
    split at h <;> cases h
  | follow other => cases h

variable [DecidableEq ι]

/-- The steps of one search. -/
inductive Happening.OfSearch (search : ι) : Happening ι δ → Prop
  | enter : Happening.OfSearch search (.enter search)
  | follow : Happening.OfSearch search (.follow search)
  | test (dir : ℤ) : Happening.OfSearch search (.test search dir)

/-- A search in another position. -/
def Monitor.seek (s : Monitor ι) (search : ι) (cursor : Cursor Place) : Monitor ι :=
  { s with memory := s.memory.setCursor search cursor }

theorem Monitor.seek_seek (cursor cursor' : Cursor Place) :
    (s.seek search cursor).seek search cursor' = s.seek search cursor' := by
  simp [Monitor.seek, State.setCursor]

theorem Monitor.seek_cursor (cursor : Cursor Place) : (s.seek search cursor).memory.cursor search = cursor :=
  Function.update_self _ _ _

theorem step_follow (cursor : Cursor Place) :
    Monitor.step (δ := δ) ids (.follow search) (s.seek search cursor) =
      s.seek search (cursor.follow .head s.memory.links.next) := by
  change (s.seek search cursor).seek search _ = _
  rw [Monitor.seek_seek, Monitor.seek_cursor]
  rfl

theorem step_test (hentry : s.nodes[n]? = some entry) (dir : ℤ) :
    Monitor.step (δ := δ) ids (.test search dir) (s.seek search (.reached (.node n))) =
      s.seek search (if eligibleBy (ids search) entry dir then .found (.node n) else .passed (.node n)) := by
  have hhits : (s.seek search (.reached (.node n))).hits ids search dir = eligibleBy (ids search) entry dir := by
    have hnodes : (s.seek search (.reached (.node n))).nodes[n]? = some entry := hentry
    rw [Monitor.hits, Monitor.seek_cursor]
    simp only [hnodes]
  change (s.seek search _).seek search (Cursor.test _ ((s.seek search _).memory.cursor search)) = _
  rw [Monitor.seek_seek, Monitor.seek_cursor, hhits]
  rfl

/-- What the test of an entry returns, the test of its node finds with the same answer of `is_dir`. -/
theorem exists_dir {env : Env δ} {id : PathIdentifier} {hit : Bool}
    (h : testNode env eligibleCriteria id.path id.inoNo entry k = .ok hit k') :
    ∃ dir, eligibleBy id entry dir = hit := by
  unfold testNode at h
  split at h
  · rename_i hfields
    cases h
    exact ⟨0, by simp [eligibleBy, hfields]⟩
  · rename_i hfields
    rw [if_pos (by decide)] at h
    cases hdir : isDir env entry.resolved.path k with
    | ok dir t =>
      rw [bind_of_ok hdir] at h
      cases h
      exact ⟨dir, by simp [eligibleBy, hfields]⟩
    | error fault t =>
      rw [bind_of_error hdir] at h
      cases h

/-- The rest of a search that nothing interrupts goes as the loop of `search_entry`. -/
theorem exists_search {env : Env δ} {place : Place} {ns : List ℕ} {registry : List RegistryEntry}
    {found : Option RegistryEntry}
    (hentries : List.Forall₂ (fun n entry => s.nodes[n]? = some entry) ns registry)
    (hpath : Path s.memory.links.next place (ns.map .node) .head)
    (h : searchNodes env eligibleCriteria (ids search).path (ids search).inoNo registry k = .ok found k') :
    ∃ happenings : List (Happening ι δ), (∀ happening ∈ happenings, happening.OfSearch search) ∧
      ∃ cursor, run (Monitor.step ids) happenings (s.seek search (.passed place)) = s.seek search cursor ∧
        (found = none ∧ cursor = .missed ∨ found.isSome ∧ ∃ n, cursor = .found (.node n)) := by
  induction hentries generalizing place k with
  | nil =>
    cases h
    refine ⟨[.follow search], by simp [Happening.OfSearch.follow], .missed, ?_, .inl ⟨rfl, rfl⟩⟩
    have hlink : s.memory.links.next place = some .head := hpath
    simp [step_follow, Cursor.follow, hlink]
  | @cons n entry ns registry hentry hrest ih =>
    obtain ⟨hlink, hpath⟩ := hpath
    rw [searchNodes_cons] at h
    cases htest : testNode env eligibleCriteria (ids search).path (ids search).inoNo entry k with
    | error fault t =>
      rw [bind_of_error htest] at h
      cases h
    | ok hit t =>
      rw [bind_of_ok htest] at h
      obtain ⟨dir, hdir⟩ := exists_dir htest
      have hfollow : (Cursor.passed place).follow .head s.memory.links.next = .reached (.node n) := by
        simp [Cursor.follow, hlink]
      have hfirst : Monitor.step (δ := δ) ids (.test search dir)
          (Monitor.step (δ := δ) ids (.follow search) (s.seek search (.passed place))) =
            s.seek search (if hit then .found (.node n) else .passed (.node n)) := by
        rw [step_follow, hfollow, step_test hentry, hdir]
      cases hit with
      | true =>
        cases h
        refine ⟨[.follow search, .test search dir], ?_, _, hfirst, .inr ⟨rfl, n, rfl⟩⟩
        simp [Happening.OfSearch.follow, Happening.OfSearch.test]
      | false =>
        obtain ⟨happenings, hof, cursor, hrun, hend⟩ := ih hpath h
        refine ⟨.follow search :: .test search dir :: happenings, ?_, cursor, ?_, hend⟩
        · simpa [Happening.OfSearch.follow, Happening.OfSearch.test] using hof
        · rw [run_cons, run_cons, hfirst]
          exact hrun

/-- A search does not miss an entry that stays registered and agrees with what is searched for when it
is tested, whatever calls change the registry meanwhile. -/
theorem search_not_missed (h : s.Reachable δ ids sha256) (hentering : s.memory.cursor search = .entering)
    (hlisted : s.Lists n) (hentry : s.nodes[n]? = some entry)
    (hstays : EveryStep (Monitor.step ids) (fun happening t => (Monitor.step ids happening t).Lists n ∧
      ∀ dir, happening = .test search dir → t.memory.cursor search = .reached (.node n) →
        eligibleBy (ids search) entry dir = true) happenings s) :
    (run (Monitor.step ids) happenings s).memory.cursor search ≠ .missed := by
  have hsane : s.Sane ∧ s.nodes[n]? = some entry := ⟨h.sane, hentry⟩
  have hevery := (everyStep_congr _ (I := fun t => t.Sane ∧ t.nodes[n]? = some entry)
    (fun happening t ht => ⟨ht.1.step happening, ht.1.entry_step ht.2 happening⟩)
    (fun happening t ht => ⟨fun hstays => And.intro hstays ht, fun hboth => hboth.1⟩) happenings hsane).mp hstays
  rw [(embeds_memory ids).run]
  apply not_missed h.sane.2 hentering hlisted
  apply (embeds_memory ids).everyStep _ hevery
  rintro happening t ⟨⟨hlists, hagrees⟩, ht, hentry⟩
  refine ⟨ht.allowed ids happening, ?_, ?_⟩
  · rw [← embeds_memory ids happening t]
    exact hlists
  · -- a test of the node succeeds, as its entry agrees
    intro haction hreached
    obtain ⟨dir, rfl, hmiss⟩ := Happening.action_eq_test haction
    rw [Monitor.hits, hreached] at hmiss
    simp only [hentry] at hmiss
    exact Bool.false_ne_true (hmiss.trans (hagrees dir rfl hreached))

/-- While the directory that one search looks for is added once more, which is refused, the search goes
on and finds it. -/
theorem search_not_missed_root :
    (run (Monitor.step sampleIds) [.follow true, .call (rootAdd rootOnly (lit "/")), .follow true,
      .test true 1] searching).memory.cursor true ≠ .missed :=
  search_not_missed searching_reachable (by decide +kernel) searching_lists searching_nodes
    ⟨⟨⟨[.node 0], by decide +kernel⟩, nofun⟩, ⟨⟨[.node 0], by decide +kernel⟩, nofun⟩,
      ⟨⟨[.node 0], by decide +kernel⟩, nofun⟩, ⟨⟨[.node 0], by decide +kernel⟩, fun _ heq _ => by cases heq; decide⟩,
      trivial⟩

/-- What a search finds, or crashes on, was registered at some moment of the search. -/
theorem search_saw (h : s.Reachable δ ids sha256) (hentering : s.memory.cursor search = .entering)
    (hend : ¬ ((run (Monitor.step ids) happenings s).memory.cursor search).Avoids (.node n)) :
    ∃ first rest, happenings = first ++ rest ∧ (run (Monitor.step ids) first s).Lists n := by
  rw [(embeds_memory ids).run] at hend
  have hne : Place.node n ≠ .head := nofun
  obtain ⟨first, rest, hsplit, hlisted⟩ :=
    was_listed h.sane.2 hentering (h.sane.everyStep happenings) hne hend
  obtain ⟨first', rest', hhappenings, htrace⟩ := trace_eq_append hsplit
  refine ⟨first', rest', hhappenings, ?_⟩
  rw [Monitor.Lists, (embeds_memory ids).run, htrace]
  exact hlisted

/-- A search ends in a crash only on an entry that was taken out of the registry while the search stood
there. -/
theorem search_crashed {place : Place} (h : s.Reachable δ ids sha256)
    (hentering : s.memory.cursor search = .entering)
    (hcrashed : (run (Monitor.step ids) happenings s).memory.cursor search = .crashed place) :
    ∃ n, place = .node n ∧ (∃ first rest, happenings = first ++ rest ∧ (run (Monitor.step ids) first s).Lists n) ∧
      ¬ (run (Monitor.step ids) happenings s).Lists n := by
  have hmemoryCrashed := hcrashed
  rw [(embeds_memory ids).run] at hmemoryCrashed
  obtain ⟨⟨_, _, -, nodes, -, hhead, hmem⟩, hgone⟩ :=
    crashed_on_removed h.sane.2 hentering (h.sane.everyStep happenings) hmemoryCrashed
  rw [← (embeds_memory ids).run] at hgone
  cases place with
  | head => exact absurd hmem hhead
  | node n =>
    refine ⟨n, rfl, search_saw h hentering ?_, hgone⟩
    rw [hcrashed]
    exact fun havoids => havoids rfl

/-- The directory is removed while a search for another file stands on it. -/
def removedMeanwhile : List (Happening Bool Unit) :=
  [.follow false, .follow false, .test false 1, .call (rootRm rootOnly (lit "/")), .write, .write, .write,
    .write, .write, .follow false]

theorem search_crashed_root :
    ∃ n, Place.node 0 = .node n ∧ (∃ first rest, removedMeanwhile = first ++ rest ∧
        (run (Monitor.step sampleIds) first searching).Lists n) ∧
      ¬ (run (Monitor.step sampleIds) removedMeanwhile searching).Lists n := by
  have hcrashed : (run (Monitor.step sampleIds) removedMeanwhile searching).memory.cursor false =
      .crashed (.node 0) := by decide +kernel
  have hentering : searching.memory.cursor false = .entering := by decide +kernel
  exact search_crashed searching_reachable hentering hcrashed

/-- The node that a search has found has an entry that agrees. -/
def Monitor.Agrees (ids : ι → PathIdentifier) (search : ι) (s : Monitor ι) : Prop :=
  ∀ n, s.memory.cursor search = .found (.node n) →
    ∃ entry dir, s.nodes[n]? = some entry ∧ eligibleBy (ids search) entry dir = true

theorem Monitor.Agrees.step (h : s.Agrees ids search) (hsane : s.Sane) (happening : Happening ι δ) :
    (Monitor.step ids happening s).Agrees ids search := by
  intro n hfound
  rw [embeds_memory ids happening s] at hfound
  obtain ⟨nodes, hholds, -⟩ := exists_holds hsane.2
  obtain ⟨_, -, -, -, hmoves⟩ := hholds.step (hsane.allowed ids happening)
  have hagrees : ∃ entry dir, s.nodes[n]? = some entry ∧ eligibleBy (ids search) entry dir = true := by
    rcases (hmoves search).found hfound with hfound | ⟨haction, hreached⟩
    · exact h n hfound
    · obtain ⟨dir, -, hhit⟩ := Happening.action_eq_test haction
      rw [Monitor.hits, hreached] at hhit
      dsimp only at hhit
      split at hhit
      · rename_i entry hentry
        exact ⟨entry, dir, hentry, hhit.symm⟩
      · cases hhit
  obtain ⟨entry, dir, hentry, heligible⟩ := hagrees
  exact ⟨entry, dir, hsane.entry_step hentry happening, heligible⟩

/-- What a search finds agrees with what is searched for. -/
theorem search_found (h : s.Reachable δ ids sha256) (hentering : s.memory.cursor search = .entering)
    (hfound : (run (Monitor.step ids) happenings s).memory.cursor search = .found (.node n)) :
    (∃ first rest, happenings = first ++ rest ∧ (run (Monitor.step ids) first s).Lists n) ∧
      ∃ entry dir, (run (Monitor.step ids) happenings s).nodes[n]? = some entry ∧
        eligibleBy (ids search) entry dir = true := by
  constructor
  · apply search_saw h hentering
    rw [hfound]
    exact fun havoids => havoids rfl
  · have hrun : (run (Monitor.step ids) happenings s).Agrees ids search ∧
        (run (Monitor.step ids) happenings s).Sane := by
      apply run_preserves (Monitor.step ids) (I := fun t => t.Agrees ids search ∧ t.Sane)
      · exact fun happening t ht => ⟨ht.1.step ht.2 happening, ht.2.step happening⟩
      · refine ⟨fun n hfound => ?_, h.sane⟩
        rw [hentering] at hfound
        cases hfound
    exact hrun.1 n hfound

theorem search_found_root :
    (∃ first rest, [Happening.follow true, .follow true, .test true 1] = first ++ rest ∧
        (run (Monitor.step (δ := Unit) sampleIds) first searching).Lists 0) ∧
      ∃ entry dir, (run (Monitor.step (δ := Unit) sampleIds) [.follow true, .follow true, .test true 1]
          searching).nodes[0]? = some entry ∧ eligibleBy (sampleIds true) entry dir = true :=
  search_found searching_reachable (by decide +kernel) (by decide +kernel)

end Refmon
