import Refmon.Library.ListReaders

/-!
# Searches of a list that changes

What the readers of a circular list can rely on while a writer works on it: they meet every node that
is in the list all the time, they meet only nodes that were in the list at some moment, they crash
only on a node that was taken out while they stood there, and they go on longer only for nodes that
are put in meanwhile.
-/

namespace ListReaders

open LinkedList Runs

variable {ι α : Type*}

section Readers

variable {head place node : α} {nodes nodes' : List α} {s s' : State ι α}
  {action : Action ι α} {reader : ι} {cursor cursor' : Cursor α} {P : List α → Prop}

/-- A reader stands at this place: such a way lies ahead of it, or the place was taken out. -/
def Stands (head : α) (nodes : List α) (s : State ι α) (place : α) (P : List α → Prop) : Prop :=
  place ∈ head :: s.used ∧ ((∃ ahead, Ahead head nodes s place ahead ∧ P ahead) ∨ Poisoned s place)

/-- What is known of every reader. -/
def Cursor.Sound (head : α) (nodes : List α) (s : State ι α) : Cursor α → Prop
  | .passed place => Stands head nodes s place fun _ => True
  | .reached node => Stands head nodes s node fun _ => True
  | .crashed place => place ∈ head :: s.used ∧ Poisoned s place
  | _ => True

/-- The reader has yet to test the node, unless it ends before. -/
def Cursor.Awaits (head : α) (nodes : List α) (s : State ι α) (node : α) : Cursor α → Prop
  | .passed place => Stands head nodes s place (node ∈ ·)
  | .reached other => other = node ∨ Stands head nodes s other (node ∈ ·)
  | .missed => False
  | _ => True

/-- The reader is not at the node. -/
def Cursor.Avoids (node : α) : Cursor α → Prop
  | .passed place => place ≠ node
  | .reached other => other ≠ node
  | .found other => other ≠ node
  | .crashed place => place ≠ node
  | _ => True

variable [DecidableEq α]

/-- Whoever stands somewhere still stands there after an action of the writer. -/
theorem Stands.keeps (hstands : Stands head nodes s place P) (hkeeps : Keeps head nodes s nodes' s')
    {P' : List α → Prop} (hP : ∀ ahead ahead', (∀ node ∈ nodes', node ∈ ahead → node ∈ ahead') →
      ahead'.length + coming head nodes' s' + s.used.length ≤
        ahead.length + coming head nodes s + s'.used.length → P ahead → P' ahead') :
    Stands head nodes' s' place P' := by
  obtain ⟨hused, ⟨ahead, hahead, hPahead⟩ | hpoisoned⟩ := hstands
  · refine ⟨List.cons_subset_cons _ hkeeps.used.subset hused, ?_⟩
    rcases hkeeps.ahead hahead with ⟨ahead', hahead', hmem, hlonger⟩ | hpoisoned
    · exact .inl ⟨ahead', hahead', hP ahead ahead' hmem hlonger hPahead⟩
    · exact .inr hpoisoned
  · exact ⟨List.cons_subset_cons _ hkeeps.used.subset hused, .inr (hkeeps.poisoned place hused hpoisoned)⟩

theorem Cursor.Sound.keeps (hsound : cursor.Sound head nodes s) (hkeeps : Keeps head nodes s nodes' s') :
    cursor.Sound head nodes' s' := by
  cases cursor with
  | passed place => exact Stands.keeps hsound hkeeps fun _ _ _ _ h => h
  | reached node => exact Stands.keeps hsound hkeeps fun _ _ _ _ h => h
  | crashed place =>
    exact ⟨List.cons_subset_cons _ hkeeps.used.subset hsound.1, hkeeps.poisoned place hsound.1 hsound.2⟩
  | _ => trivial

theorem Cursor.Awaits.keeps (h : cursor.Awaits head nodes s node) (hkeeps : Keeps head nodes s nodes' s')
    (hnode : node ∈ nodes') : cursor.Awaits head nodes' s' node := by
  have hstands (place : α) (h : Stands head nodes s place (node ∈ ·)) :
      Stands head nodes' s' place (node ∈ ·) :=
    h.keeps hkeeps fun _ _ hmem _ => hmem node hnode
  cases cursor with
  | passed place => exact hstands place h
  | reached other => exact h.imp_right (hstands other)
  | missed => exact h
  | _ => trivial

/-- At the head, the whole list lies ahead. -/
theorem Holds.stands_head (h : Holds head nodes s) (hP : P nodes) : Stands head nodes s head P :=
  ⟨List.mem_cons_self, .inl ⟨nodes, ⟨h.forward, List.suffix_rfl, .inl List.mem_cons_self⟩, hP⟩⟩

/-- Following a link from where one stands leads to the end of the way, to its first node, or nowhere. -/
theorem Stands.follow (hstands : Stands head nodes s place P) (h : Holds head nodes s) :
    (Cursor.passed place).follow head s.links.next = .missed ∧ P [] ∨
      (∃ node rest, (Cursor.passed place).follow head s.links.next = .reached node ∧ node ∈ nodes ∧
        P (node :: rest) ∧ Stands head nodes s node (· = rest)) ∨
      (Cursor.passed place).follow head s.links.next = .crashed place ∧ Poisoned s place := by
  obtain ⟨-, ⟨ahead, hahead, hP⟩ | hpoisoned⟩ := hstands
  · cases ahead with
    | nil =>
      have hlink : s.links.next place = some head := hahead.path
      exact .inl ⟨by simp [Cursor.follow, hlink], hP⟩
    | cons node rest =>
      obtain ⟨hlink, hrest⟩ := hahead.path
      have hnode : node ∈ nodes := hahead.suffix.subset List.mem_cons_self
      have hne : node ≠ head := fun heq => (List.nodup_cons.mp h.nodup).1 (heq ▸ hnode)
      refine .inr (.inl ⟨node, rest, by simp [Cursor.follow, hlink, hne], hnode, hP,
        List.mem_cons_of_mem _ (h.used hnode), .inl ⟨rest, ⟨hrest, ?_, ?_⟩, rfl⟩⟩)
      · exact (List.suffix_cons node rest).trans hahead.suffix
      · exact .inl (List.mem_cons_of_mem _ hnode)
  · exact .inr (.inr ⟨by simp [Cursor.follow, hpoisoned.link], hpoisoned⟩)

/-- A reader that enters does so at the head, or finds the list empty. -/
theorem Holds.follow_entering (h : Holds head nodes s) :
    Cursor.entering.follow head s.links.next = .missed ∧ nodes = [] ∨
      Cursor.entering.follow head s.links.next = .passed head := by
  have hfirst := h.forward.first
  cases nodes with
  | nil => exact .inl ⟨by simp [Cursor.follow, hfirst], rfl⟩
  | cons node rest =>
    have hne : node ≠ head := fun heq => (List.nodup_cons.mp h.nodup).1 (heq ▸ List.mem_cons_self)
    exact .inr (by simp [Cursor.follow, hfirst, hne])

/-- What one action does to the position of a reader. -/
inductive Moves (head : α) (next : α → Option α) (action : Action ι α) (reader : ι) : Cursor α → Cursor α → Prop
  | stay {cursor : Cursor α} : Moves head next action reader cursor cursor
  | enter : Moves head next action reader .idle .entering
  | follow {cursor : Cursor α} : Moves head next action reader cursor (cursor.follow head next)
  | test {cursor : Cursor α} {hit : Bool} (heq : action = .test reader hit) :
      Moves head next action reader cursor (cursor.test hit)

theorem Cursor.Sound.moves (hsound : cursor.Sound head nodes s) (h : Holds head nodes s)
    (hmoves : Moves head s.links.next action reader cursor cursor') : cursor'.Sound head nodes s := by
  cases hmoves with
  | stay => exact hsound
  | enter => trivial
  | follow =>
    cases cursor with
    | entering =>
      rcases h.follow_entering with ⟨hfollow, -⟩ | hfollow
      · rw [hfollow]
        trivial
      · rw [hfollow]
        exact h.stands_head trivial
    | passed place =>
      rcases Stands.follow hsound h with ⟨hfollow, -⟩ | ⟨node, rest, hfollow, -, -, hstands⟩ | ⟨hfollow, hpoisoned⟩
      · rw [hfollow]
        trivial
      · rw [hfollow]
        exact ⟨hstands.1, hstands.2.imp_left fun ⟨ahead, hahead, _⟩ => ⟨ahead, hahead, trivial⟩⟩
      · rw [hfollow]
        exact ⟨hsound.1, hpoisoned⟩
    | _ => exact hsound
  | test heq =>
    cases cursor with
    | reached node =>
      rw [Cursor.test]
      split
      · trivial
      · exact hsound
    | _ => exact hsound

/-- A reader does not go past a node of the list that does not fail its test. -/
theorem Cursor.Awaits.moves (h : cursor.Awaits head nodes s node)
    (hholds : Holds head nodes s) (hnode : node ∈ nodes) (hpasses : action = .test reader false → cursor ≠ .reached node)
    (hmoves : Moves head s.links.next action reader cursor cursor') : cursor'.Awaits head nodes s node := by
  cases hmoves with
  | stay => exact h
  | enter => trivial
  | follow =>
    cases cursor with
    | entering =>
      rcases hholds.follow_entering with ⟨-, rfl⟩ | hfollow
      · cases hnode
      · rw [hfollow]
        exact hholds.stands_head hnode
    | passed place =>
      rcases Stands.follow h hholds with ⟨-, hmem⟩ | ⟨other, rest, hfollow, -, hmem, hstands⟩ | ⟨hfollow, -⟩
      · cases hmem
      · rw [hfollow]
        rcases List.mem_cons.mp hmem with heq | hmem
        · exact .inl heq.symm
        · refine .inr ⟨hstands.1, hstands.2.imp_left fun ⟨ahead, hahead, heq⟩ => ⟨ahead, hahead, ?_⟩⟩
          exact heq ▸ hmem
      · rw [hfollow]
        trivial
    | _ => exact h
  | test heq =>
    cases cursor with
    | reached other =>
      rw [Cursor.test]
      split
      · trivial
      · rename_i hmiss
        refine h.resolve_left ?_
        rintro rfl
        rw [Bool.not_eq_true] at hmiss
        exact hpasses (hmiss ▸ heq) rfl
    | _ => exact h

/-- A reader does not come to a node that is not in the list. -/
theorem Cursor.Avoids.moves (h : cursor.Avoids node) (hsound : cursor.Sound head nodes s)
    (hholds : Holds head nodes s) (hnode : node ∉ head :: nodes)
    (hmoves : Moves head s.links.next action reader cursor cursor') : cursor'.Avoids node := by
  cases hmoves with
  | stay => exact h
  | enter => trivial
  | follow =>
    cases cursor with
    | entering =>
      rcases hholds.follow_entering with ⟨hfollow, -⟩ | hfollow
      · rw [hfollow]
        trivial
      · rw [hfollow]
        rintro rfl
        exact hnode List.mem_cons_self
    | passed place =>
      rcases Stands.follow hsound hholds with ⟨hfollow, -⟩ | ⟨other, _, hfollow, hother, -⟩ | ⟨hfollow, -⟩
      · rw [hfollow]
        trivial
      · rw [hfollow]
        rintro rfl
        exact hnode (List.mem_cons_of_mem _ hother)
      · rw [hfollow]
        exact h
    | _ => exact h
  | test heq =>
    cases cursor with
    | reached other =>
      rw [Cursor.test]
      split
      · exact h
      · exact h
    | _ => exact h

theorem Start.holds (h : Start head s) : Holds head [] s where
  nodup := List.nodup_singleton _
  forward := h.isList.forward
  phase := by
    rw [h.pending]
    exact .quiet
  completes := ⟨[], by rw [h.pending]; exact h.isList⟩
  used := List.nil_subset _

/-- A reader finds a node by a test of it that succeeds. -/
theorem Moves.found (h : Moves head s.links.next action reader cursor cursor') (hend : cursor' = .found node) :
    cursor = .found node ∨ action = .test reader true ∧ cursor = .reached node := by
  cases h with
  | stay => exact .inl hend
  | enter => cases hend
  | follow =>
    cases cursor with
    | entering =>
      rw [Cursor.follow] at hend
      split at hend
      · cases hend
      · split at hend <;> cases hend
    | passed place =>
      rw [Cursor.follow] at hend
      split at hend
      · cases hend
      · split at hend <;> cases hend
    | _ => exact .inl hend
  | @test _ hit heq =>
    cases cursor with
    | reached other =>
      rw [Cursor.test] at hend
      cases hit with
      | false => cases hend
      | true =>
        cases hend
        exact .inr ⟨heq, rfl⟩
    | _ => exact .inl hend

variable [DecidableEq ι]

/-- The move of one reader leaves the others where they are. -/
theorem moves_setCursor {mover : ι} (h : Moves head s.links.next action mover (s.cursor mover) cursor) :
    Moves head s.links.next action reader (s.cursor reader) ((s.setCursor mover cursor).cursor reader) := by
  by_cases heq : reader = mover
  · subst heq
    have hself : (s.setCursor reader cursor).cursor reader = cursor := Function.update_self _ _ _
    rw [hself]
    exact h
  · have hother : (s.setCursor mover cursor).cursor reader = s.cursor reader := Function.update_of_ne heq _ _
    rw [hother]
    exact .stay

/-- The readers do not touch the list. -/
theorem Holds.setCursor (h : Holds head nodes s) :
    Holds head nodes (s.setCursor reader cursor) ∧ Keeps head nodes s nodes (s.setCursor reader cursor) :=
  ⟨⟨h.nodup, h.forward, h.phase, h.completes, h.used⟩,
    fun hahead => .inl ⟨_, ⟨hahead.path, hahead.suffix, hahead.placed⟩, fun _ _ hmem => hmem, Nat.le_refl _⟩,
    fun _ _ hpoisoned => ⟨hpoisoned.link, hpoisoned.settled⟩, List.suffix_rfl⟩

/-- What one action does to the list and to the readers. -/
theorem Holds.step (h : Holds head nodes s) (hallowed : Allowed head action s) :
    ∃ nodes', Holds head nodes' (step head action s) ∧
      Keeps head nodes s nodes' (step head action s) ∧ Seen head nodes nodes' ∧
      ∀ reader, Moves head s.links.next action reader (s.cursor reader)
        ((step head action s).cursor reader) := by
  cases action with
  | insert new =>
    rw [ListReaders.step]
    split
    · rename_i last hpending hlast
      obtain ⟨hholds, hkeeps⟩ := h.insert hpending hlast hallowed
      exact ⟨nodes, hholds, hkeeps, .same, fun _ => .stay⟩
    · exact ⟨nodes, h, .refl, .same, fun _ => .stay⟩
  | remove node =>
    rw [ListReaders.step]
    split
    · rename_i before behind hpending hbefore hbehind
      obtain ⟨hholds, hkeeps⟩ := h.delete hpending (h.listed_iff.mp hallowed) hbefore hbehind
      exact ⟨nodes, hholds, hkeeps, .same, fun _ => .stay⟩
    · exact ⟨nodes, h, .refl, .same, fun _ => .stay⟩
  | store =>
    rw [ListReaders.step]
    split
    · exact ⟨nodes, h, .refl, .same, fun _ => .stay⟩
    · rename_i first rest hpending
      obtain ⟨nodes', hholds, hkeeps, hseen⟩ := h.store hpending
      exact ⟨nodes', hholds, hkeeps, hseen, fun _ => .stay⟩
  | enter mover =>
    rw [ListReaders.step]
    split
    · rename_i hidle
      exact ⟨nodes, h.setCursor.1, h.setCursor.2, .same, fun _ => moves_setCursor (hidle ▸ .enter)⟩
    · exact ⟨nodes, h, .refl, .same, fun _ => .stay⟩
  | follow mover => exact ⟨nodes, h.setCursor.1, h.setCursor.2, .same, fun _ => moves_setCursor .follow⟩
  | test mover hit => exact ⟨nodes, h.setCursor.1, h.setCursor.2, .same, fun _ => moves_setCursor (.test rfl)⟩
  | other => exact ⟨nodes, h, .refl, .same, fun _ => .stay⟩

end Readers

section Interleavings

variable [DecidableEq ι] [DecidableEq α] {head place node : α} {nodes nodes' : List α}
  {s s' : State ι α} {actions : List (Action ι α)} {reader : ι}
  {cursor cursor' : Cursor α}

/-- At every moment the links form a list, and every reader stands somewhere. -/
theorem exists_holds (h : Reach (step head) (Start head) (Allowed head) s) :
    ∃ nodes, Holds head nodes s ∧ ∀ reader, (s.cursor reader).Sound head nodes s := by
  apply h.invariant
  · intro t ht
    refine ⟨[], ht.holds, fun reader => ?_⟩
    rw [ht.idle reader]
    trivial
  · intro action t hallowed ⟨nodes, hholds, hsound⟩
    obtain ⟨nodes', hholds', hkeeps, -, hmoves⟩ := hholds.step hallowed
    exact ⟨nodes', hholds', fun reader => ((hsound reader).moves hholds (hmoves reader)).keeps hkeeps⟩

/-- The readers see one change at a time: a new node at the tail, or one node less. -/
theorem seen_step {action : Action ι α} (h : Reach (step head) (Start head) (Allowed head) s)
    (hallowed : Allowed head action s) :
    ∃ nodes nodes', Path s.links.next head nodes head ∧ (head :: nodes).Nodup ∧
      Path (step head action s).links.next head nodes' head ∧ (head :: nodes').Nodup ∧
      Seen head nodes nodes' := by
  obtain ⟨nodes, hholds, -⟩ := exists_holds h
  obtain ⟨nodes', hholds', -, hseen, -⟩ := hholds.step hallowed
  exact ⟨nodes, nodes', hholds.forward, hholds.nodup, hholds'.forward, hholds'.nodup, hseen⟩

/-- A search does not miss a node that is in the list all the time and does not fail its test. -/
theorem not_missed (h : Reach (step head) (Start head) (Allowed head) s)
    (hentering : s.cursor reader = .entering) (hlisted : Listed s.links.next head node)
    (hevery : EveryStep (step head) (fun action t => Allowed head action t ∧
      Listed (step head action t).links.next head node ∧
      (action = .test reader false → t.cursor reader ≠ .reached node)) actions s) :
    (run (step head) actions s).cursor reader ≠ .missed := by
  obtain ⟨nodes, hholds, -⟩ := exists_holds h
  have hend : ∃ nodes, Holds head nodes (run (step head) actions s) ∧ node ∈ nodes ∧
      ((run (step head) actions s).cursor reader).Awaits head nodes (run (step head) actions s) node := by
    apply run_invariant (step head) (I := fun t => ∃ nodes, Holds head nodes t ∧ node ∈ nodes ∧
      (t.cursor reader).Awaits head nodes t node) _ hevery
    · refine ⟨nodes, hholds, hholds.listed_iff.mp hlisted, ?_⟩
      rw [hentering]
      trivial
    · intro action t ⟨hallowed, hstays, hpasses⟩ ⟨nodes, hholds, hnode, hawaits⟩
      obtain ⟨nodes', hholds', hkeeps, -, hmoves⟩ := hholds.step hallowed
      have hnode' : node ∈ nodes' := hholds'.listed_iff.mp hstays
      exact ⟨nodes', hholds', hnode', (hawaits.moves hholds hnode hpasses (hmoves reader)).keeps hkeeps hnode'⟩
  obtain ⟨_, -, -, hawaits⟩ := hend
  intro hmissed
  rw [hmissed] at hawaits
  exact hawaits

/-- Where a search comes to, there was a node of the list at some moment of the search. -/
theorem was_listed (h : Reach (step head) (Start head) (Allowed head) s)
    (hentering : s.cursor reader = .entering) (hevery : EveryStep (step head) (Allowed head) actions s)
    (hne : node ≠ head) (hend : ¬ ((run (step head) actions s).cursor reader).Avoids node) :
    ∃ first rest, actions = first ++ rest ∧
      Listed (run (step head) first s).links.next head node := by
  by_contra hnever
  apply hend
  have hunlisted : EveryStep (step head) (fun _ t => ¬ Listed t.links.next head node) actions s := by
    rw [everyStep_iff]
    intro first action rest hsplit hlisted
    exact hnever ⟨first, action :: rest, hsplit, hlisted⟩
  obtain ⟨nodes, hholds, hsound⟩ := exists_holds h
  have hrun : ∃ nodes, Holds head nodes (run (step head) actions s) ∧
      ((run (step head) actions s).cursor reader).Sound head nodes (run (step head) actions s) ∧
      ((run (step head) actions s).cursor reader).Avoids node := by
    apply run_invariant (step head) (I := fun t => ∃ nodes, Holds head nodes t ∧
      (t.cursor reader).Sound head nodes t ∧ (t.cursor reader).Avoids node) _
      (everyStep_and _ hevery hunlisted)
    · refine ⟨nodes, hholds, hsound reader, ?_⟩
      rw [hentering]
      trivial
    · intro action t ⟨hallowed, hunlisted⟩ ⟨nodes, hholds, hsound, havoids⟩
      obtain ⟨nodes', hholds', hkeeps, -, hmoves⟩ := hholds.step hallowed
      have hnode : node ∉ head :: nodes := by
        rw [List.mem_cons, not_or]
        exact ⟨hne, hholds.listed_iff.not.mp hunlisted⟩
      exact ⟨nodes', hholds', (hsound.moves hholds (hmoves reader)).keeps hkeeps,
        havoids.moves hsound hholds hnode (hmoves reader)⟩
  obtain ⟨_, -, -, havoids⟩ := hrun
  exact havoids

/-- A search crashes only on a node that was taken out while it stood there. -/
theorem crashed_on_removed (h : Reach (step head) (Start head) (Allowed head) s)
    (hentering : s.cursor reader = .entering) (hevery : EveryStep (step head) (Allowed head) actions s)
    (hcrashed : (run (step head) actions s).cursor reader = .crashed place) :
    (∃ first rest, actions = first ++ rest ∧
        Listed (run (step head) first s).links.next head place) ∧
      ¬ Listed (run (step head) actions s).links.next head place := by
  obtain ⟨nodes, hholds, hsound⟩ := exists_holds (h.run hevery)
  have hplace := hsound reader
  rw [hcrashed] at hplace
  constructor
  · apply was_listed h hentering hevery
    · exact hplace.2.ne hholds List.mem_cons_self
    · rw [hcrashed]
      exact fun havoids => havoids rfl
  · rw [hholds.listed_iff]
    exact fun hmem => hplace.2.ne hholds (List.mem_cons_of_mem _ hmem) rfl

end Interleavings

section Length

variable [DecidableEq α] {head place : α} {nodes nodes' : List α} {s s' : State ι α} {action : Action ι α}
  {actions : List (Action ι α)} {reader : ι} {cursor : Cursor α} {n : ℕ}

/-- The reader ends after so many turns at the latest, if no other node is put in. -/
def Cursor.Within (head : α) (nodes : List α) (s : State ι α) (n : ℕ) : Cursor α → Prop
  | .idle => False
  | .entering => 2 ≤ n ∧ Stands head nodes s head fun ahead => 2 * (ahead.length + coming head nodes s) + 2 ≤ n
  | .passed place => 1 ≤ n ∧ Stands head nodes s place fun ahead => 2 * (ahead.length + coming head nodes s) + 1 ≤ n
  | .reached node => 2 ≤ n ∧ Stands head nodes s node fun ahead => 2 * (ahead.length + coming head nodes s) + 2 ≤ n
  | _ => True

/-- A node that the writer puts in is worth two turns. -/
theorem Cursor.Within.keeps (h : cursor.Within head nodes s n) (hkeeps : Keeps head nodes s nodes' s') :
    cursor.Within head nodes' s' (n + 2 * (s'.used.length - s.used.length)) := by
  have hused : s.used.length ≤ s'.used.length := hkeeps.used.length_le
  have hstands (place : α) (k : ℕ)
      (h : Stands head nodes s place fun ahead => 2 * (ahead.length + coming head nodes s) + k ≤ n) :
      Stands head nodes' s' place fun ahead =>
        2 * (ahead.length + coming head nodes' s') + k ≤ n + 2 * (s'.used.length - s.used.length) := by
    apply h.keeps hkeeps
    intro ahead ahead' _ hlonger hle
    omega
  cases cursor with
  | idle => exact h
  | entering => exact ⟨Nat.le_add_right_of_le h.1, hstands head 2 h.2⟩
  | passed place => exact ⟨Nat.le_add_right_of_le h.1, hstands place 1 h.2⟩
  | reached node => exact ⟨Nat.le_add_right_of_le h.1, hstands node 2 h.2⟩
  | _ => trivial

/-- One node at most is being put in. -/
theorem Holds.coming_le (h : Holds head nodes s) : coming head nodes s ≤ 1 := by
  have hphase := h.phase
  generalize hstores : nextStores s.pending = stores at hphase
  rw [coming_eq hstores]
  cases hphase with
  | quiet => simp
  | fresh _ _ =>
    simp only [List.countP_cons, List.countP_nil, Option.any_some, List.mem_cons_self, not_true]
    split <;> simp
  | publish hnew _ _ => exact List.countP_le_length
  | @unlink front back node hnodes =>
    have hbehind : back.headD head ∈ head :: nodes := by
      rw [hnodes]
      cases back <;> simp
    simp only [List.countP_cons, List.countP_nil, Option.any_some, Option.any_none, hbehind]
    simp
  | poison _ _ _ => simp

/-- A reader that follows a link has a turn less to go. -/
theorem Cursor.Within.follow (h : cursor.Within head nodes s n) (hholds : Holds head nodes s)
    (hcursor : cursor = .entering ∨ ∃ place, cursor = .passed place) :
    1 ≤ n ∧ (cursor.follow head s.links.next).Within head nodes s (n - 1) := by
  rcases hcursor with rfl | ⟨place, rfl⟩
  · obtain ⟨hn, hstands⟩ := h
    refine ⟨by omega, ?_⟩
    rcases hholds.follow_entering with ⟨hfollow, -⟩ | hfollow
    · rw [hfollow]
      trivial
    · rw [hfollow]
      refine ⟨by omega, hstands.1, hstands.2.imp_left ?_⟩
      rintro ⟨ahead, hahead, hle⟩
      exact ⟨ahead, hahead, by omega⟩
  · obtain ⟨hn, hstands⟩ := h
    refine ⟨hn, ?_⟩
    rcases hstands.follow hholds with ⟨hfollow, -⟩ | ⟨node, rest, hfollow, -, hle, hrest⟩ | ⟨hfollow, -⟩
    · rw [hfollow]
      trivial
    · rw [hfollow]
      rw [List.length_cons] at hle
      refine ⟨by omega, hrest.1, hrest.2.imp_left ?_⟩
      rintro ⟨ahead, hahead, rfl⟩
      exact ⟨ahead, hahead, by omega⟩
    · rw [hfollow]
      trivial

/-- So does one that tests a node. -/
theorem Cursor.Within.test {node : α} (h : (Cursor.reached node).Within head nodes s n) (hit : Bool) :
    1 ≤ n ∧ ((Cursor.reached node).test hit).Within head nodes s (n - 1) := by
  obtain ⟨hn, hstands⟩ := h
  refine ⟨by omega, ?_⟩
  rw [Cursor.test]
  split
  · trivial
  · refine ⟨by omega, hstands.1, hstands.2.imp_left ?_⟩
    rintro ⟨ahead, hahead, hle⟩
    exact ⟨ahead, hahead, by omega⟩

variable [DecidableEq ι]

/-- It is the reader's turn: it has not ended, and it follows a link or tests the node that it has
reached. -/
def Action.turn (reader : ι) (action : Action ι α) (s : State ι α) : Bool :=
  match action, s.cursor reader with
  | .follow mover, .entering => mover = reader
  | .follow mover, .passed _ => mover = reader
  | .test mover _, .reached _ => mover = reader
  | _, _ => false

/-- Without its turn, a reader that has entered stays where it is. -/
theorem step_of_not_turn (hturn : action.turn reader s = false) (hentered : s.cursor reader ≠ .idle) :
    (ListReaders.step head action s).cursor reader = s.cursor reader := by
  cases action with
  | insert new =>
    rw [ListReaders.step]
    split <;> rfl
  | remove node =>
    rw [ListReaders.step]
    split <;> rfl
  | store =>
    rw [ListReaders.step]
    split <;> rfl
  | enter mover =>
    rw [ListReaders.step]
    split
    · rename_i hidle
      have hne : reader ≠ mover := fun heq => hentered (heq ▸ hidle)
      exact Function.update_of_ne hne _ _
    · rfl
  | follow mover =>
    by_cases heq : reader = mover
    · subst heq
      have hself : (ListReaders.step head (.follow reader) s).cursor reader =
          (s.cursor reader).follow head s.links.next := Function.update_self _ _ _
      rw [hself]
      cases hcursor : s.cursor reader with
      | entering => simp [Action.turn, hcursor] at hturn
      | passed place => simp [Action.turn, hcursor] at hturn
      | _ => rfl
    · exact Function.update_of_ne heq _ _
  | test mover hit =>
    by_cases heq : reader = mover
    · subst heq
      have hself : (ListReaders.step head (.test reader hit) s).cursor reader =
          (s.cursor reader).test hit := Function.update_self _ _ _
      rw [hself]
      cases hcursor : s.cursor reader with
      | reached node => simp [Action.turn, hcursor] at hturn
      | _ => rfl
    · exact Function.update_of_ne heq _ _
  | other => rfl

/-- A step brings a reader closer to its end exactly when it is its turn. -/
theorem Cursor.Within.step (h : (s.cursor reader).Within head nodes s n) (hholds : Holds head nodes s)
    (action : Action ι α) :
    (action.turn reader s).toNat ≤ n ∧
      ((ListReaders.step head action s).cursor reader).Within head nodes s (n - (action.turn reader s).toNat) := by
  cases hturn : action.turn reader s with
  | false =>
    have hentered : s.cursor reader ≠ .idle := by
      intro hidle
      rw [hidle] at h
      exact h
    rw [step_of_not_turn hturn hentered]
    exact ⟨Nat.zero_le n, h⟩
  | true =>
    unfold Action.turn at hturn
    split at hturn
    · rename_i mover hcursor
      obtain rfl : mover = reader := by simpa using hturn
      have hself : (ListReaders.step head (.follow mover) s).cursor mover =
          (s.cursor mover).follow head s.links.next := Function.update_self _ _ _
      rw [hself]
      exact h.follow hholds (.inl hcursor)
    · rename_i mover place hcursor
      obtain rfl : mover = reader := by simpa using hturn
      have hself : (ListReaders.step head (.follow mover) s).cursor mover =
          (s.cursor mover).follow head s.links.next := Function.update_self _ _ _
      rw [hself]
      exact h.follow hholds (.inr ⟨place, hcursor⟩)
    · rename_i mover hit node hcursor
      obtain rfl : mover = reader := by simpa using hturn
      have hself : (ListReaders.step head (.test mover hit) s).cursor mover =
          (s.cursor mover).test hit := Function.update_self _ _ _
      rw [hself]
      rw [hcursor] at h ⊢
      exact h.test hit
    · cases hturn

/-- A reader takes no more turns than that, and two for each node that is put in meanwhile. -/
theorem countSteps_turn_le (hholds : Holds head nodes s) (h : (s.cursor reader).Within head nodes s n)
    (hevery : EveryStep (step head) (Allowed head) actions s) :
    countSteps (step head) (Action.turn reader) actions s + 2 * s.used.length ≤
      n + 2 * (run (step head) actions s).used.length := by
  induction actions generalizing nodes s n with
  | nil => simp [countSteps]
  | cons action actions ih =>
    obtain ⟨hallowed, hrest⟩ := hevery
    obtain ⟨nodes', hholds', hkeeps, -⟩ := hholds.step hallowed
    obtain ⟨hle, hwithin⟩ := h.step hholds action
    have hlonger := hkeeps.used.length_le
    have htail := ih hholds' (hwithin.keeps hkeeps) hrest
    rw [countSteps, run_cons]
    omega

/-- A search takes a bounded number of turns, however its steps and those of the writer are interleaved. -/
theorem search_length (hholds : Holds head nodes s) (hentering : s.cursor reader = .entering)
    (hevery : EveryStep (step head) (Allowed head) actions s) :
    countSteps (step head) (Action.turn reader) actions s + 2 * s.used.length ≤
      2 * (nodes.length + coming head nodes s) + 2 + 2 * (run (step head) actions s).used.length := by
  apply countSteps_turn_le hholds _ hevery
  rw [hentering]
  exact ⟨Nat.le_add_left 2 _, hholds.stands_head (Nat.le_refl _)⟩

end Length

end ListReaders
