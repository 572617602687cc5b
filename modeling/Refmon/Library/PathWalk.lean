import Mathlib.Data.List.Infix
import Mathlib.Tactic.Common

/-!
# Walking a path through a tree with links

Places are rows of names from the root. A walk takes the steps of a path one by one; at a link
it goes on with the steps of the link's target and then with its own. The walks of a budget
cross at most that many links. Whether a link in the last step is crossed is the caller's
choice.
-/

namespace PathWalk

variable {N : Type}

/-- One component of a path. -/
inductive Step (N : Type)
  | stay
  | up
  | down (name : N)
deriving DecidableEq

/-- What is at a place. The target of a link starts at the root or in the link's directory. -/
inductive Node (N : Type)
  | dir
  | file
  | link (fromRoot : Bool) (target : List (Step N))

/-- The ways a walk can fail. -/
inductive WalkError
  | noEntry
  | notDir
  | loop
deriving DecidableEq

section

variable (node : List N → Option (Node N))

/-- The steps of a walk whose links are crossed by `jump`. -/
def walkSteps (jump : List N → List (Step N) → Except WalkError (List N)) (follow : Bool) :
    List N → List (Step N) → Except WalkError (List N)
  | place, [] => .ok place
  | place, step :: rest =>
    match node place with
    | some .dir =>
      match step with
      | .stay => walkSteps jump follow place rest
      | .up => walkSteps jump follow place.dropLast rest
      | .down name =>
        match node (place ++ [name]) with
        | none => .error .noEntry
        | some (.link fromRoot target) =>
          if follow || !rest.isEmpty then jump (if fromRoot then [] else place) (target ++ rest)
          else .ok (place ++ [name])
        | some .dir => walkSteps jump follow (place ++ [name]) rest
        | some .file => walkSteps jump follow (place ++ [name]) rest
    | _ => .error .notDir

/-- A walk that crosses at most `budget` links. -/
def walk (follow : Bool) : ℕ → List N → List (Step N) → Except WalkError (List N)
  | 0 => walkSteps node (fun _ _ => .error .loop) follow
  | budget + 1 => walkSteps node (walk follow budget) follow

/-- What exists is below directories, and the root is one. -/
structure Rooted : Prop where
  root : node [] = some .dir
  above : ∀ place name, node (place ++ [name]) ≠ none → node place = some .dir

/-- There is something at the place, and it is no link. -/
def Solid (place : List N) : Prop := node place = some .dir ∨ node place = some .file

end

variable {node : List N → Option (Node N)}

/-- The directory above a directory is one. -/
theorem Rooted.dropLast (h : Rooted node) {place : List N} (hdir : node place = some .dir) :
    node place.dropLast = some .dir := by
  cases hplace : place using List.reverseRecOn with
  | nil => exact h.root
  | append_singleton above name =>
    rw [List.dropLast_concat]
    apply h.above above name
    rw [← hplace, hdir]
    simp

/-- Whatever is at a place, its ancestors are directories. -/
theorem Rooted.dir_of_prefix (h : Rooted node) {place above : List N} (hplace : node place ≠ none)
    (habove : above <+: place) (hne : above ≠ place) : node above = some .dir := by
  induction place using List.reverseRecOn with
  | nil => exact (hne (List.prefix_nil.mp habove)).elim
  | append_singleton parent name ih =>
    have hparent := h.above parent name hplace
    rcases List.prefix_concat_iff.mp habove with heq | hpre
    · exact (hne heq).elim
    · by_cases heq : above = parent
      · rw [heq]
        exact hparent
      · exact ih (by simp [hparent]) hpre heq

/-- Where walks may end. A walk that follows links does not end at one; a walk that starts at a
file or directory ends at something. -/
theorem walkSteps_ends (h : Rooted node) {jump : List N → List (Step N) → Except WalkError (List N)}
    {follow : Bool}
    (hjump : ∀ place steps out, Solid node place → jump place steps = .ok out →
      node out ≠ none ∧ (follow = true → Solid node out))
    {place out : List N} {steps : List (Step N)} (hplace : Solid node place)
    (hwalk : walkSteps node jump follow place steps = .ok out) :
    node out ≠ none ∧ (follow = true → Solid node out) := by
  induction steps generalizing place with
  | nil =>
    rw [walkSteps, Except.ok.injEq] at hwalk
    rw [← hwalk]
    refine ⟨?_, fun _ => hplace⟩
    rcases hplace with hdir | hfile
    · simp [hdir]
    · simp [hfile]
  | cons step rest ih =>
    rw [walkSteps.eq_def] at hwalk
    dsimp only at hwalk
    split at hwalk
    · rename_i hdir
      cases step with
      | stay => exact ih hplace hwalk
      | up => exact ih (Or.inl (h.dropLast hdir)) hwalk
      | down name =>
        dsimp only at hwalk
        split at hwalk
        · cases hwalk
        · rename_i fromRoot target hlink
          split at hwalk
          · refine hjump _ _ _ ?_ hwalk
            split
            · exact Or.inl h.root
            · exact hplace
          · rename_i hstop
            rw [Except.ok.injEq] at hwalk
            subst hwalk
            apply And.intro
            · simp [hlink]
            · intro hfollow
              simp [hfollow] at hstop
        · rename_i hdir'
          exact ih (Or.inl hdir') hwalk
        · rename_i hfile
          exact ih (Or.inr hfile) hwalk
    · cases hwalk

/-- Where the walks of any budget end. -/
theorem walk_ends (h : Rooted node) {follow : Bool} {budget : ℕ} {place out : List N}
    {steps : List (Step N)} (hplace : Solid node place)
    (hwalk : walk node follow budget place steps = .ok out) :
    node out ≠ none ∧ (follow = true → Solid node out) := by
  induction budget generalizing place out steps with
  | zero => exact walkSteps_ends h (fun _ _ _ _ hjump => by cases hjump) hplace hwalk
  | succ budget ih =>
    exact walkSteps_ends h (fun _ _ _ hsolid hjump => ih hsolid hjump) hplace hwalk

/-- A walk that ends at a file or directory without following a last link is also the walk that
follows it. -/
theorem walkSteps_follow {jump jump' : List N → List (Step N) → Except WalkError (List N)}
    (hjump : ∀ place steps out, jump place steps = .ok out → Solid node out → jump' place steps = .ok out)
    {place out : List N} {steps : List (Step N)}
    (hwalk : walkSteps node jump false place steps = .ok out) (hout : Solid node out) :
    walkSteps node jump' true place steps = .ok out := by
  induction steps generalizing place with
  | nil => exact hwalk
  | cons step rest ih =>
    rw [walkSteps.eq_def] at hwalk ⊢
    dsimp only at hwalk ⊢
    split at hwalk
    · cases step with
      | stay => exact ih hwalk
      | up => exact ih hwalk
      | down name =>
        dsimp only at hwalk ⊢
        split at hwalk
        · cases hwalk
        · rename_i fromRoot target hlink
          rw [Bool.true_or, if_pos rfl]
          split at hwalk
          · exact hjump _ _ _ hwalk hout
          · -- the walk would end at the link itself
            rw [Except.ok.injEq] at hwalk
            subst hwalk
            rcases hout with hdir' | hfile
            · rw [hlink] at hdir'
              cases hdir'
            · rw [hlink] at hfile
              cases hfile
        · exact ih hwalk
        · exact ih hwalk
    · cases hwalk

theorem walk_follow {budget : ℕ} {place out : List N} {steps : List (Step N)}
    (hwalk : walk node false budget place steps = .ok out) (hout : Solid node out) :
    walk node true budget place steps = .ok out := by
  induction budget generalizing place out steps with
  | zero => exact walkSteps_follow (fun _ _ _ hjump _ => by cases hjump) hwalk hout
  | succ budget ih => exact walkSteps_follow (fun _ _ _ hjump hsolid => ih hjump hsolid) hwalk hout

/-- Walking down the names of an existing place from above it leads there. -/
theorem walkSteps_down (h : Rooted node) {jump : List N → List (Step N) → Except WalkError (List N)}
    (place : List N) {names : List N} (hexists : node (place ++ names) ≠ none) :
    walkSteps node jump false place (names.map .down) = .ok (place ++ names) := by
  induction names generalizing place with
  | nil => rw [List.append_nil, List.map_nil, walkSteps]
  | cons name names ih =>
    have hassoc : place ++ name :: names = place ++ [name] ++ names := by simp
    have habove {above : List N} (hpre : above <+: place ++ name :: names)
        (hne : above ≠ place ++ name :: names) : node above = some .dir :=
      h.dir_of_prefix hexists hpre hne
    have hhere : node place = some .dir := habove ⟨name :: names, rfl⟩ (by simp)
    rw [List.map_cons, walkSteps, hhere]
    dsimp only
    rw [hassoc] at hexists ⊢
    cases names with
    | nil =>
      rw [List.append_nil] at hexists ⊢
      cases hnode : node (place ++ [name]) with
      | none => exact (hexists hnode).elim
      | some found => cases found <;> rfl
    | cons next names =>
      have hnext : node (place ++ [name]) = some .dir := by
        apply habove
        · rw [hassoc]
          exact ⟨next :: names, rfl⟩
        · simp
      rw [hnext]
      exact ih _ hexists

/-- Walking down the names of an existing place from the root leads there. -/
theorem walk_down (h : Rooted node) {names : List N} (hexists : node names ≠ none) (budget : ℕ) :
    walk node false budget [] (names.map .down) = .ok names := by
  cases budget with
  | zero => exact walkSteps_down h [] hexists
  | succ budget => exact walkSteps_down h [] hexists

/-- Staying in a directory changes nothing. -/
theorem walk_stay {place : List N} (hdir : node place = some .dir) (follow : Bool) (budget : ℕ)
    (steps : List (Step N)) :
    walk node follow budget place (.stay :: steps) = walk node follow budget place steps := by
  cases budget with
  | zero => rw [walk, walkSteps, hdir]
  | succ budget => rw [walk, walkSteps, hdir]

end PathWalk
