import Refmon.Enforcement
import Refmon.LogContents

/-!
# The log as an audit trail

A work is scheduled when an access has been denied. However calls, accesses and works come one after
the other, each scheduled work waits or is run once, and whoever reads the log finds one line, in the
order in which they were written, for every work whose text was not refused, and nothing else. If
programs can be read and the log can be opened, that is one line for every denied access.
-/

namespace Refmon

open Runs SeparatedText Wp

variable {δ κ : Type}

/-- A line of the log: what was scheduled, and the digest of the program. -/
abbrev LogLine := LogDataset × Digest

/-- The text of the line, as `defer` formats it. -/
def lineText (entry : LogLine) : List UInt8 := formatRecord entry.1 (hexconv entry.2)

/-- The fields of the line. -/
def lineFields (entry : LogLine) : List (List UInt8) := recordFields entry.1 (hexconv entry.2)

theorem hexconv_rendered (digest : Digest) : IsRendered (hexconv digest) := by
  refine ⟨length_hexconv digest, fun char hchar => ?_⟩
  obtain ⟨byte, -, hbyte⟩ := List.mem_flatMap.mp hchar
  rcases List.mem_cons.mp hbyte with hhigh | hlow
  · exact ⟨_, hhigh⟩
  · exact ⟨_, List.mem_singleton.mp hlow⟩

section Work

variable {w : Worker δ} {dataset : LogDataset}

/-- A hash of a file is the rendering of a digest. -/
theorem Worker.wp_hashOpened (w : Worker δ) (opened : Except ℤ δ × List LogDataset) (k : Kernel) :
    wp (w.hashOpened opened) (fun out _ => ∀ hash, out.1 = some hash → ∃ digest, hash = hexconv digest)
      (fun _ _ => True) k := by
  obtain ⟨opened, works⟩ := opened
  cases opened with
  | error e => exact fun _ hnone => by cases hnone
  | ok file =>
    rw [Worker.hashOpened, wp_bind]
    apply wp_of_run _ fun _ _ _ => trivial
    intro updated t _
    split
    · exact fun _ hnone => by cases hnone
    · split
      · exact fun _ hnone => by cases hnone
      · apply wp_ask_else
        · exact fun _ _ _ _ hnone => by cases hnone
        · intro u _ hash hhash
          exact ⟨_, (Option.some.inj hhash).symm⟩

theorem Worker.wp_hashgenFilecont_digest (w : Worker δ) (filepath : CString) (k : Kernel) :
    wp (w.hashgenFilecont filepath)
      (fun out _ => ∀ hash, out.1 = some hash → ∃ digest, hash = hexconv digest) (fun _ _ => True) k := by
  have hwild (t : Kernel) : wp (throw .wildFree : K (Option CString × List LogDataset))
      (fun out _ => ∀ hash, out.1 = some hash → ∃ digest, hash = hexconv digest) (fun _ _ => True) t :=
    trivial
  rw [Worker.hashgenFilecont]
  apply wp_ask_else fun t _ _ => hwild t
  intro _ _
  apply wp_ask_else fun t _ _ => hwild t
  intro _ _
  apply wp_ask_else fun t _ _ => hwild t
  intro _ _
  apply wp_ask_else fun t _ _ => hwild t
  intro _ _
  apply wp_ask_else
  · exact fun _ _ _ _ hnone => by cases hnone
  · intro t _
    rw [wp_bind]
    apply wp_of_run _ fun _ _ _ => trivial
    intro opened u _
    exact w.wp_hashOpened opened u

/-- What `defer` hands to `kernel_write` is the text of a line of its dataset. -/
theorem Worker.wp_defer_text (w : Worker δ) (dataset : LogDataset) (k : Kernel) :
    wp (w.defer dataset) (fun deferred _ => ∀ out, deferred.written = some out →
      ∃ digest, out = lineText (dataset, digest)) (fun _ _ => True) k := by
  rw [Worker.defer, wp_bind]
  apply wp_mono (w.wp_hashgenFilecont_digest _ k) _ fun _ _ _ => trivial
  intro out t hdigest
  obtain ⟨hash, works⟩ := out
  cases hash with
  | none => exact fun _ hnone => by cases hnone
  | some hash =>
    obtain ⟨digest, rfl⟩ := hdigest hash rfl
    dsimp only
    rw [wp_bind]
    apply wp_of_run _ fun _ _ _ => trivial
    intro opened u _
    obtain ⟨opened, more⟩ := opened
    cases opened with
    | error e => exact fun _ hnone => by cases hnone
    | ok file => exact fun _ hout => ⟨digest, (Option.some.inj hout).symm⟩

/-- The write of a line. -/
def Worker.lineWrite (w : Worker δ) (entry : LogLine) : WriteCall := ⟨lineText entry, w.sbBread, w.outSize⟩

@[simp] theorem lineWrite_kvec (w : Worker δ) (entry : LogLine) : (w.lineWrite entry).kvec = lineText entry := rfl

theorem lineWrite_fits (w : Worker δ) (entry : LogLine) :
    (w.lineWrite entry).FitsBlock ∧ (w.lineWrite entry).kvec.length < DEFAULT_BLOCK_SIZE := by
  obtain ⟨hpos, hlength⟩ := formatRecord_length entry.1 (hexconv entry.2)
  rw [WriteCall.FitsBlock, lineWrite_kvec, lineText]
  exact ⟨⟨hpos, hlength.le⟩, hlength⟩

theorem lineWrite_free (w : Worker δ) (entry : LogLine) : 0 ∉ (w.lineWrite entry).kvec := by
  rw [lineWrite_kvec, lineText]
  exact zero_not_mem_formatRecord _ _

/-- A work that ends leaves the log as it is, or has recorded the text of a line. -/
theorem Worker.runWork_log {world next : LogWorld} {more : List LogDataset}
    (h : w.runWork dataset world = some (more, next)) :
    next.log = world.log ∧ next.records = world.records ∨
      ∃ digest value, next.records = world.records ++ [lineText (dataset, digest)] ∧
        onefilefsWriteAsync (w.lineWrite (dataset, digest)) world.log = (.ok value, next.log) := by
  unfold Worker.runWork at h
  split at h
  · cases h
  · rename_i deferred t hdefer
    have htext := wp_ok (w.wp_defer_text dataset world.kernel) hdefer
    cases h
    split
    · exact .inl ⟨rfl, rfl⟩
    · rename_i out hout
      obtain ⟨digest, rfl⟩ := htext out hout
      unfold Worker.kernelWrite
      split
      · rename_i value log hwrite
        exact .inr ⟨digest, value, rfl, hwrite⟩
      · rename_i e log hwrite
        exact .inl ⟨write_failed hwrite, rfl⟩

end Work

/-- Whoever reads the log to its end with any counts, drops the zeros and splits the text at the ends of lines
finds the first line and these. -/
def Refmonfs.Shows (log : Refmonfs) (lines : List LogLine) : Prop :=
  ∀ (sbBread : ℕ → Bool) (counts : ℕ → ℕ),
    (∀ position, position < log.iSize → sbBread (position / DEFAULT_BLOCK_SIZE + DEFAULT_INO_SIZE) = true) →
      (∀ n, Admitted (counts n)) →
        ∃ content, ReadLoop.ReadsAll (readLog log sbBread) counts 0 0 content ∧
          dropZeros content = fileBody.bytes ++ (lines.map lineText).flatten ∧
          ((∀ entry ∈ lines, Representable entry.1 (hexconv entry.2)) →
            records tab newline (dropZeros content) = firstFields :: lines.map lineFields)

theorem Refmonfs.Reads.shows {log : Refmonfs} {lines : List LogLine}
    (h : log.Reads (fileBody.bytes ++ (lines.map lineText).flatten)) : log.Shows lines := by
  intro sbBread counts hdata hcounts
  obtain ⟨content, hreads, htext⟩ := h.readsAll hdata hcounts
  refine ⟨content, hreads, htext, fun hrep => ?_⟩
  have hrendered : ∀ entry ∈ lines.map fun entry : LogLine => (entry.1, hexconv entry.2), IsRendered entry.2 := by
    intro entry hentry
    obtain ⟨line, -, rfl⟩ := List.mem_map.mp hentry
    exact hexconv_rendered _
  have hrep' : ∀ entry ∈ lines.map fun entry : LogLine => (entry.1, hexconv entry.2),
      Representable entry.1 entry.2 := by
    intro entry hentry
    obtain ⟨line, hline, rfl⟩ := List.mem_map.mp hentry
    exact hrep line hline
  have hsplit := records_of_representable hrendered hrep'
  rw [List.map_map, List.map_map] at hsplit
  rw [htext]
  exact hsplit

section Trail

variable [DecidableEq κ] {accesses : κ → Access δ} {s : Mediation κ} {lines : List LogLine}

omit [DecidableEq κ] in
/-- A worker gets no lock or no work, or it crashes in a work, or it ends it. -/
theorem Mediation.runWork_cases (s : Mediation κ) (place : ℕ) (w : Worker δ) :
    s.runWork place w = s ∨ ∃ dataset, s.spin = false ∧ s.works[place]? = some dataset ∧
      (w.runWork dataset ⟨s.kernel, s.log, []⟩ = none ∧
          s.runWork place w =
            { s with works := s.works.eraseIdx place, ran := s.ran ++ [dataset], spin := true } ∨
        ∃ more world, w.runWork dataset ⟨s.kernel, s.log, []⟩ = some (more, world) ∧
          s.runWork place w =
            { s with
              kernel := world.kernel
              log := world.log
              works := s.works.eraseIdx place ++ more
              scheduled := s.scheduled ++ more
              ran := s.ran ++ [dataset]
              written := s.written ++ world.records.map fun out => (dataset, out) }) := by
  by_cases hspin : s.spin = true
  · exact .inl (if_pos hspin)
  · rw [Mediation.runWork, if_neg hspin]
    cases hworks : s.works[place]? with
    | none => exact .inl rfl
    | some dataset =>
      refine .inr ⟨dataset, Bool.eq_false_iff.mpr hspin, rfl, ?_⟩
      dsimp only
      cases hrun : w.runWork dataset ⟨s.kernel, s.log, []⟩ with
      | none => exact .inl ⟨rfl, rfl⟩
      | some out => exact .inr ⟨out.1, out.2, rfl, rfl⟩

variable (accesses) in
/-- Calls and accesses schedule works at most. -/
theorem Mediation.step_queue (s : Mediation κ) {o : Occurrence κ δ} (h : ∀ place w, o ≠ .work place w) :
    ∃ more, (step accesses o s).works = s.works ++ more ∧
      (step accesses o s).scheduled = s.scheduled ++ more ∧ (step accesses o s).ran = s.ran ∧
      (step accesses o s).written = s.written ∧ (step accesses o s).log = s.log := by
  have hnone : ∃ more, s.works = s.works ++ more ∧ s.scheduled = s.scheduled ++ more ∧ s.ran = s.ran ∧
      s.written = s.written ∧ s.log = s.log :=
    ⟨[], (List.append_nil _).symm, (List.append_nil _).symm, rfl, rfl, rfl⟩
  cases o with
  | call e => exact hnone
  | enter access =>
    rw [Mediation.step]
    split
    · unfold Mediation.enter
      split
      · split
        · split
          · exact hnone
          · exact hnone
        · exact hnone
      · exact hnone
    · exact hnone
  | leave access =>
    rw [Mediation.step]
    split
    · unfold Mediation.tail
      split
      · exact hnone
      · dsimp only
        split
        · rename_i ret work t _
          exact ⟨work.toList, rfl, rfl, rfl, rfl, rfl⟩
        · exact hnone
    · exact hnone
    · exact hnone
  | work place w => exact absurd rfl (h place w)

/-- The log holds the texts of these lines. Each scheduled work waits or was run, and the lines are of works
that were run. -/
structure Mediation.Trail (s : Mediation κ) (lines : List LogLine) : Prop where
  scheduled : s.scheduled.Perm (s.ran ++ s.works)
  ran : (lines.map Prod.fst).Sublist s.ran
  written : s.written = lines.map fun entry => (entry.1, lineText entry)
  log : s.log.Reads (fileBody.bytes ++ (lines.map lineText).flatten)

omit [DecidableEq κ] in
/-- A work that waits is taken out once. -/
theorem perm_of_work {place : ℕ} {dataset : LogDataset} (hscheduled : s.scheduled.Perm (s.ran ++ s.works))
    (hwork : s.works[place]? = some dataset) (more : List LogDataset) :
    (s.scheduled ++ more).Perm (s.ran ++ [dataset] ++ (s.works.eraseIdx place ++ more)) := by
  obtain ⟨hlt, hget⟩ := List.getElem?_eq_some_iff.mp hwork
  have htaken : (dataset :: s.works.eraseIdx place).Perm s.works :=
    hget ▸ List.getElem_cons_eraseIdx_perm hlt
  have hmoved : s.ran ++ [dataset] ++ (s.works.eraseIdx place ++ more) =
      s.ran ++ (dataset :: s.works.eraseIdx place) ++ more := by simp
  rw [hmoved]
  exact (hscheduled.trans (htaken.symm.append_left s.ran)).append_right more

omit [DecidableEq κ] in
/-- A work that ends extends the trail by its line, or leaves it. -/
theorem Mediation.Trail.runWork (h : s.Trail lines) (place : ℕ) {w : Worker δ}
    (hreaches : ∀ entry, (w.lineWrite entry).ReachesBlock s.log) :
    ∃ more, (s.runWork place w).Trail (lines ++ more) := by
  have hsame : s.Trail (lines ++ []) := by rwa [List.append_nil]
  rcases s.runWork_cases place w with hrun | ⟨dataset, -, hwork, ⟨-, hrun⟩ | ⟨more, world, hends, hrun⟩⟩
  · rw [hrun]
    exact ⟨[], hsame⟩
  · have hperm := perm_of_work h.scheduled hwork []
    rw [List.append_nil, List.append_nil] at hperm
    rw [hrun]
    exact ⟨[], hperm, hsame.ran.trans (List.sublist_append_left _ _), hsame.written, hsame.log⟩
  · have hperm := perm_of_work h.scheduled hwork more
    rw [hrun]
    rcases Worker.runWork_log hends with ⟨hlog, hrecords⟩ | ⟨digest, value, hrecords, hwrite⟩
    · refine ⟨[], hperm, hsame.ran.trans (List.sublist_append_left _ _), ?_, ?_⟩
      · rw [hrecords, List.map_nil, List.append_nil]
        exact hsame.written
      · rw [hlog]
        exact hsame.log
    · refine ⟨[(dataset, digest)], hperm, ?_, ?_, ?_⟩
      · rw [List.map_append]
        exact h.ran.append_right _
      · simp [hrecords, h.written]
      · rcases h.log.write (lineWrite_fits w (dataset, digest)).1 (hreaches _)
            (lineWrite_free _ _) with hfail | ⟨after, hok, hreads⟩
        · cases (Prod.mk.inj (hwrite.symm.trans hfail)).1
        · have htext : fileBody.bytes ++ ((lines ++ [(dataset, digest)]).map lineText).flatten =
              fileBody.bytes ++ (lines.map lineText).flatten ++ lineText (dataset, digest) := by simp
          rw [(Prod.mk.inj (hwrite.symm.trans hok)).2, htext]
          rwa [lineWrite_kvec] at hreads

/-- Whatever happens, the trail grows at most. -/
theorem Mediation.Trail.step (h : s.Trail lines) (o : Occurrence κ δ)
    (hreaches : ∀ place w, o = .work place w → ∀ entry, (w.lineWrite entry).ReachesBlock s.log) :
    ∃ more, (Mediation.step accesses o s).Trail (lines ++ more) := by
  have hqueue (hnot : ∀ place w, o ≠ .work place w) :
      ∃ more, (Mediation.step accesses o s).Trail (lines ++ more) := by
    obtain ⟨more, hworks, hscheduled, hran, hwritten, hlog⟩ := s.step_queue accesses hnot
    refine ⟨[], ?_, ?_, ?_, ?_⟩
    · rw [hscheduled, hran, hworks, ← List.append_assoc]
      exact h.scheduled.append_right more
    · rw [hran, List.append_nil]
      exact h.ran
    · rw [hwritten, List.append_nil]
      exact h.written
    · rw [hlog, List.append_nil]
      exact h.log
  cases o with
  | call e => exact hqueue fun _ _ => nofun
  | enter access => exact hqueue fun _ _ => nofun
  | leave access => exact hqueue fun _ _ => nofun
  | work place w => exact h.runWork place (hreaches place w rfl)

omit [DecidableEq κ] in
/-- Before anything has happened there is the first line. -/
theorem Mediation.trail_start {log : Refmonfs} (hlog : log.Reads fileBody.bytes) (kernel : Kernel) :
    (Mediation.start kernel log : Mediation κ).Trail [] :=
  ⟨.refl _, .refl _, rfl, by rwa [List.map_nil, List.flatten_nil, List.append_nil]⟩

/-- A worker of a kernel thread, on a device that has every sector below `2 ^ 63`. -/
def deviceWorker : Worker Dentry := { logWorker none with sbBread := fun _ => largeDevice }

theorem formattedZeros_zeros : FormattedZeros formattedZeros := by
  have hstatus : (singlefilemakefs formatAll fun _ _ => 0).1 = 0 := by decide +kernel
  refine ⟨formatAll, by decide +kernel, ?_⟩
  rw [← hstatus, formattedZeros]

end Trail

section Denials

/-- The record that `log_handler` takes of an access by a program at this path. -/
def Access.record (a : Access δ) (path : CString) : LogDataset :=
  ⟨a.current.tgid, a.current.tid, a.current.uid, a.returnEnv.euid, path⟩

/-- The return handler runs in a namespace that stands still, with memory, for a program whose path can be
printed. -/
structure Access.ReturnsIn (a : Access δ) (fs : Vfs δ) (path : CString) : Prop where
  sees : a.returnEnv.Sees fs
  allocates : a.returnEnv.Allocates
  hasPath : fs.dentryPathRaw a.current.exeFile = .ok path

/-- A worker that can write the records of these works to this log. -/
structure Worker.WritesAll (w : Worker δ) (fs : Vfs δ) (logDentry : δ) (core : Core) (log : Refmonfs)
    (works : List LogDataset) : Prop where
  runsIn : w.RunsIn fs
  mounted : w.Mounted fs logDentry
  writes : ∀ dataset ∈ works, w.Writes fs core dataset.progPath
  room : log.iSize + DEFAULT_BLOCK_SIZE ≤ readableSize

/-- A log with room for a block has room for a line. -/
theorem Worker.WritesAll.reachesBlock {w : Worker δ} {fs : Vfs δ} {logDentry : δ} {core : Core}
    {log : Refmonfs} {works : List LogDataset} (h : w.WritesAll fs logDentry core log works)
    (entry : LogLine) : (w.lineWrite entry).ReachesBlock log := by
  have hroom := h.room
  have hlength := (lineWrite_fits w entry).2
  left
  unfold recordBlock recordOffset
  unfold readableSize at hroom
  unfold DEFAULT_BLOCK_SIZE DEFAULT_INO_SIZE at *
  split <;> omega

variable [DecidableEq κ] {accesses : κ → Access δ} {s : Mediation κ} {fs : Vfs δ} {path : κ → CString}
  {access : κ}

/-- Nothing has crashed: what was scheduled are the records of the denied accesses, and what was run was
written. -/
structure Mediation.Prompt (s : Mediation κ) (record : κ → LogDataset) : Prop where
  probing : s.probing = false
  spin : s.spin = false
  scheduled : s.scheduled = s.denied.map record
  written : s.written.map Prod.fst = s.ran
  nodup : s.denied.Nodup
  returned : ∀ access ∈ s.denied, ∃ value, s.phase access = .returned value

/-- The return handler denies the access and schedules its record. -/
theorem Mediation.tail_eq {path : CString} (h : (accesses access).ReturnsIn fs path)
    (hprobing : s.probing = false) :
    ∃ t, s.tail accesses access =
      { s with
        kernel := t
        holders := s.holders.erase access
        works := s.works ++ [(accesses access).record path]
        denied := s.denied ++ [access]
        scheduled := s.scheduled ++ [(accesses access).record path] }.move access (.returned (-EACCES)) := by
  obtain ⟨out, t, hlog, hout, -⟩ :=
    wp_returns (wp_krpHookTail (k := s.kernel) h.sees h.allocates (accesses access).regs h.hasPath)
  refine ⟨t, ?_⟩
  rw [Mediation.tail, if_neg (by rw [hprobing]; exact Bool.false_ne_true)]
  dsimp only
  rw [hlog, hout, krpHookTail_ax]
  rfl

omit [DecidableEq κ] in
/-- A work that can be written is written. -/
theorem Mediation.Prompt.runWork {record : κ → LogDataset} {logDentry : δ} (h : s.Prompt record)
    (place : ℕ) {w : Worker δ} (hw : w.WritesAll fs logDentry s.kernel.core s.log s.works) :
    (s.runWork place w).Prompt record := by
  rcases s.runWork_cases place w with hrun | ⟨dataset, -, hwork, hends⟩
  · rwa [hrun]
  · obtain ⟨deferred, t, hdefer, ⟨out, rfl⟩, -⟩ := wp_returns (hw.mounted.wp_defer_writes hw.runsIn dataset
      (hw.writes dataset (List.mem_of_getElem? hwork)))
    have hrecords := hw.mounted.kernelWrite_records out ⟨t, s.log, []⟩
    have hwritten : w.runWork dataset ⟨s.kernel, s.log, []⟩ = some ([], w.kernelWrite out ⟨t, s.log, []⟩) := by
      rw [Worker.runWork, hdefer]
    rcases hends with ⟨hcrash, -⟩ | ⟨more, world, hok, hrun⟩
    · cases hwritten.symm.trans hcrash
    · obtain ⟨rfl, rfl⟩ := Prod.mk.inj (Option.some.inj (hwritten.symm.trans hok))
      rw [hrun]
      refine ⟨h.probing, h.spin, (List.append_nil _).trans h.scheduled, ?_, h.nodup, h.returned⟩
      rw [hrecords, List.map_append, h.written]
      rfl

variable (accesses) in
/-- An access that enters changes its phase, and what its probe holds. -/
theorem Mediation.enter_eq (s : Mediation κ) (access : κ) :
    ∃ kernel holders phase,
      s.enter accesses access = { s with kernel := kernel, holders := holders }.move access phase := by
  unfold Mediation.enter
  split
  · split
    · split
      · exact ⟨_, _, _, rfl⟩
      · exact ⟨_, _, _, rfl⟩
    · exact ⟨_, _, _, rfl⟩
  · exact ⟨_, _, _, rfl⟩

theorem Mediation.Prompt.move {record : κ → LogDataset} (h : s.Prompt record) (kernel : Kernel) (holders : List κ)
    {phase : AccessPhase} (hphase : access ∈ s.denied → ∃ value, phase = .returned value) :
    ({ s with kernel := kernel, holders := holders }.move access phase).Prompt record where
  probing := h.probing
  spin := h.spin
  scheduled := h.scheduled
  written := h.written
  nodup := h.nodup
  returned other hother := by
    by_cases heq : other = access
    · rw [heq, move_phase_self]
      exact hphase (heq ▸ hother)
    · rw [move_phase_of_ne heq]
      exact h.returned other hother

/-- Nothing crashes where nothing fails. -/
theorem Mediation.Prompt.step {logDentry : δ} (hreturns : ∀ access, (accesses access).ReturnsIn fs (path access))
    (h : s.Prompt fun access => (accesses access).record (path access)) (o : Occurrence κ δ)
    (hworks : ∀ place w, o = .work place w → w.WritesAll fs logDentry s.kernel.core s.log s.works) :
    (Mediation.step accesses o s).Prompt fun access => (accesses access).record (path access) := by
  cases o with
  | call e => exact ⟨h.probing, h.spin, h.scheduled, h.written, h.nodup, h.returned⟩
  | enter access =>
    rw [Mediation.step]
    split
    · rename_i houtside
      obtain ⟨kernel, holders, phase, henter⟩ := s.enter_eq accesses access
      rw [henter]
      apply h.move kernel holders
      intro hdenied
      obtain ⟨value, hvalue⟩ := h.returned access hdenied
      cases houtside.symm.trans hvalue
    · exact h
  | leave access =>
    rw [Mediation.step]
    split
    · rename_i harmed
      have hnot : access ∉ s.denied := by
        intro hdenied
        obtain ⟨value, hvalue⟩ := h.returned access hdenied
        cases harmed.symm.trans hvalue
      obtain ⟨t, htail⟩ := Mediation.tail_eq (hreturns access) h.probing
      rw [htail]
      refine ⟨h.probing, h.spin, ?_, h.written, ?_, fun other hother => ?_⟩
      · change s.scheduled ++ _ = (s.denied ++ [access]).map _
        rw [h.scheduled, List.map_append]
        rfl
      · change (s.denied ++ [access]).Nodup
        rw [← List.concat_eq_append]
        exact h.nodup.concat hnot
      · by_cases heq : other = access
        · rw [heq, move_phase_self]
          exact ⟨_, rfl⟩
        · rw [move_phase_of_ne heq]
          exact h.returned other ((List.mem_append.mp hother).resolve_right (by simpa using heq))
    · exact h.move s.kernel s.holders fun _ => ⟨_, rfl⟩
    · exact h
  | work place w => exact h.runWork place (hworks place w rfl)

/-- An access that was denied at its entry waits, has crashed or is among the denied. -/
def Mediation.Pending (s : Mediation κ) (access : κ) : Prop :=
  s.phase access = .armed ∨ s.phase access = .crashed ∨ access ∈ s.denied

/-- Whoever has been denied stays among the denied. -/
theorem Mediation.step_denied_subset (s : Mediation κ) (o : Occurrence κ δ) :
    s.denied ⊆ (Mediation.step accesses o s).denied := by
  cases o with
  | call e => exact List.Subset.refl _
  | enter a =>
    rw [Mediation.step]
    split
    · obtain ⟨kernel, holders, phase, henter⟩ := s.enter_eq accesses a
      rw [henter]
      exact List.Subset.refl _
    · exact List.Subset.refl _
  | leave a =>
    rw [Mediation.step]
    split
    · unfold Mediation.tail
      split
      · exact List.Subset.refl _
      · dsimp only
        split
        · exact List.subset_append_left _ _
        · exact List.Subset.refl _
    · exact List.Subset.refl _
    · exact List.Subset.refl _
  | work place w =>
    rcases s.runWork_cases place w with hrun | ⟨dataset, -, -, ⟨-, hrun⟩ | ⟨more, world, -, hrun⟩⟩
    all_goals
      rw [Mediation.step, hrun]
      exact List.Subset.refl _

theorem Mediation.Pending.step (h : s.Pending access) (o : Occurrence κ δ) :
    (Mediation.step accesses o s).Pending access := by
  rcases h with harmed | hcrashed | hdenied
  · by_cases hsubject : o.subject = some access
    · cases o with
      | call e => cases hsubject
      | enter a =>
        obtain rfl : a = access := Option.some.inj hsubject
        rw [Mediation.step, harmed]
        exact .inl harmed
      | leave a =>
        obtain rfl : a = access := Option.some.inj hsubject
        rw [Mediation.step, harmed]
        dsimp only
        unfold Mediation.tail
        split
        · exact .inl harmed
        · dsimp only
          split
          · exact .inr (.inr (List.mem_append_right _ List.mem_cons_self))
          · exact .inr (.inl (move_phase_self _ _ _))
      | work place w => cases hsubject
    · exact .inl ((step_phase_of_ne hsubject s).trans harmed)
  · by_cases hsubject : o.subject = some access
    · cases o with
      | call e => cases hsubject
      | enter a =>
        obtain rfl : a = access := Option.some.inj hsubject
        rw [Mediation.step, hcrashed]
        exact .inr (.inl hcrashed)
      | leave a =>
        obtain rfl : a = access := Option.some.inj hsubject
        rw [Mediation.step, hcrashed]
        exact .inr (.inl hcrashed)
      | work place w => cases hsubject
    · exact .inr (.inl ((step_phase_of_ne hsubject s).trans hcrashed))
  · exact .inr (.inr (s.step_denied_subset o hdenied))

/-- An access that is denied at its entry waits to return, or has crashed. -/
theorem Mediation.pending_of_denies (hdenies : s.denies accesses access = true) :
    (s.enter accesses access).Pending access := by
  unfold Mediation.denies at hdenies
  rw [Bool.and_eq_true, beq_iff_eq] at hdenies
  have hentry := returned_eq_some hdenies.2
  unfold Mediation.enter
  rw [if_pos hdenies.1, hentry]
  exact .inl (move_phase_self _ _ _)

/-- What happens to the program that opens its own file. -/
def ownFileEvents : List (Occurrence Unit Dentry) := [.enter (), .leave (), .work 0 (logWorker none)]

/-- The log is not shadowed there. -/
theorem ownFile_clear : ¬ shadowedView.LogShadowed (shadowedOn (lit "/a")).core.theInstance.registry := by
  have hregistry : (shadowedOn (lit "/a")).core.theInstance.registry =
      [⟨⟨lit "/a", 7⟩, ⟨lit "/a", 7⟩⟩] := by decide +kernel
  have hresolve : shadowedView.resolve logOwnPath = some (lit "/blocked-ops.log") := by decide +kernel
  have hino : shadowedView.inoAt (lit "/blocked-ops.log") ≠ 7 := by decide +kernel
  have hpath : lit "/blocked-ops.log" ≠ lit "/a" := by decide
  rintro ⟨out, hout, node, hnode, hmatches⟩
  rw [hresolve, Option.some.injEq] at hout
  rw [hregistry, List.mem_singleton] at hnode
  subst hout hnode
  rcases hmatches with hsame | hsame | ⟨-, hsub⟩
  · exact hpath hsame.symm
  · exact hino hsame.symm
  · revert hsub
    decide

theorem ownFile_writes :
    EveryStep (Mediation.step opensItself)
      (fun o t => ∀ place w, o = .work place w →
        w.WritesAll shadowedView mountedLog t.kernel.core t.log t.works)
      ownFileEvents (.start (shadowedOn (lit "/a")) emptyLog) := by
  refine ⟨fun _ _ => nofun, fun _ _ => nofun, ?_, trivial⟩
  rintro place w ⟨⟩
  refine ⟨logWorker_runsIn none, logWorker_mounted none, ?_, by decide +kernel⟩
  intro dataset hdataset
  have hcore : (Mediation.step opensItself (.leave ()) (Mediation.step opensItself (.enter ())
      (.start (shadowedOn (lit "/a")) emptyLog))).kernel.core = (shadowedOn (lit "/a")).core :=
    (Mediation.step_core (o := .leave ()) _ fun _ => nofun).trans
      (Mediation.step_core (o := .enter ()) _ fun _ => nofun)
  have hworks : (Mediation.step opensItself (.leave ()) (Mediation.step opensItself (.enter ())
      (.start (shadowedOn (lit "/a")) emptyLog))).works = [(opensItself ()).record (lit "/a")] := by
    decide +kernel
  rw [hworks, List.mem_singleton] at hdataset
  rw [hdataset]
  refine ⟨logWorker_reads _ _, fun hdiverted => ownFile_clear ?_⟩
  rw [← hcore]
  exact hdiverted.2

end Denials

end Refmon
