import CourseCompletion.Proofs.Command
import CourseCompletion.Proofs.Readback
import CourseCompletion.Proofs.Rule
import CourseCompletion.Proofs.Sweep
import CourseCompletion.Proofs.Untracked

/-!
# Courses brought up to date

The command that evaluates a whole course again goes through its records twice: it flags those that
are not complete for now, and then sweeps the course.

* `Row.flaggedIn`        a row after the first pass, and `Session.Flags` what the pass leaves;
* `CompletionTable.Valid.dueRows_flagged`
                          the rows that the second pass finds due: those that the first pass has
                          flagged, and the complete ones that were due before;
* `Session.Refreshes`    what both leave, where the course tracks completion.

A flag for now is stored without the fraction of its second, so it is due at once; a flag for later
is written over.  Where the course does not track completion the flags stay
(`reaggregate_all_brings_course_up_to_date`).
-/

namespace CourseCompletion

/-! ## incomplete rows and their flags -/

/-- the rows of a course that are not complete -/
def CompletionTable.incompleteRows (t : CompletionTable) (course : Int) : List Row :=
  t.rows.filter fun row => row.course = course ∧ row.isComplete = false

namespace Row

variable {course : Int} {now : Instant} {row : Row}

/-- the row after the incomplete rows of a course were flagged for now -/
def flaggedIn (course : Int) (now : Instant) (row : Row) : Row :=
  if row.course = course ∧ row.isComplete = false then
    { row.restored with reaggregate := now.seconds }
  else row

theorem key_flaggedIn (course : Int) (now : Instant) (row : Row) :
    (row.flaggedIn course now).key = row.key := by
  unfold flaggedIn
  split <;> rfl

theorem course_flaggedIn (course : Int) (now : Instant) (row : Row) :
    (row.flaggedIn course now).course = row.course :=
  congrArg Key.course (row.key_flaggedIn course now)

theorem isComplete_flaggedIn (course : Int) (now : Instant) (row : Row) :
    (row.flaggedIn course now).isComplete = row.isComplete := by
  unfold flaggedIn
  split
  · show decide (0 < max row.completed 0) = decide (0 < row.completed)
    refine decide_eq_decide.2 ?_
    omega
  · rfl

theorem Readable.flaggedIn (h : row.Readable) (course : Int) (now : Instant) :
    (row.flaggedIn course now).Readable := by
  have hzero : (0 : Int) ≤ latestSecond := by decide
  unfold Row.flaggedIn
  split
  · obtain ⟨he, hs, hc, -⟩ := h
    exact ⟨max_le he hzero, max_le hs hzero, max_le hc hzero, now.seconds_mem.2⟩
  · exact h

/-- Flagged rows of the course are due, and no others that were not. -/
theorem due_flaggedIn_iff (hnow : now.IsKnown) (hc : row.course = course) :
    (row.flaggedIn course now).Due now ↔ row.isComplete = false ∨ row.Due now := by
  unfold flaggedIn
  by_cases hopen : row.isComplete = false
  · rw [if_pos ⟨hc, hopen⟩]
    exact ⟨fun _ => .inl hopen, fun _ => ⟨hnow, Int.le_refl _⟩⟩
  · rw [if_neg fun h => hopen h.2]
    exact ⟨.inr, fun h => h.resolve_left hopen⟩

/-- the row that is written for a stored record as it is flagged -/
def ofFlagged (now : Instant) (r : Record) : Row :=
  ofRecord (r.flag now) (r.id.getD 0) (r.version + 1)

theorem Reads.ofFlagged {r : Record} (h : row.Reads r) (hc : row.course = course)
    (hopen : row.isComplete = false) : Row.ofFlagged now r = row.flaggedIn course now := by
  have hwritten : Row.ofFlagged now r =
      { Row.ofRecord r row.id (row.version + 1) with reaggregate := now.seconds } := by
    unfold Row.ofFlagged
    rw [h.id, h.version]
    rfl
  rw [hwritten, h.ofRecord]
  exact (if_pos ⟨hc, hopen⟩).symm

end Row

namespace CompletionTable

variable {t t' : CompletionTable} {course : Int} {now : Instant} {row : Row}

theorem mem_incompleteRows :
    row ∈ t.incompleteRows course ↔
      row ∈ t.rows ∧ row.course = course ∧ row.isComplete = false := by
  unfold incompleteRows
  rw [List.mem_filter, decide_eq_true_iff]

/-- Once a course was flagged, the due rows are the complete ones that were due before, and the
flagged ones. -/
theorem Valid.dueRows_flagged (hv : t.Valid) (hv' : t'.Valid) (hnow : now.IsKnown)
    (hrow : ∀ k, t'.row? k = (t.row? k).map (Row.flaggedIn course now)) :
    (t'.dueRows course now).Perm
      (((t.dueRows course now).filter Row.isComplete ++ t.incompleteRows course).map
        (Row.flaggedIn course now)) := by
  have hdue : ∀ row : Row,
      decide ((row.flaggedIn course now).course = course ∧ (row.flaggedIn course now).Due now) =
        decide (row.course = course ∧ (row.isComplete = false ∨ row.Due now)) := by
    intro row
    rw [Row.course_flaggedIn]
    exact decide_eq_decide.2 (and_congr_right fun hc => Row.due_flaggedIn_iff hnow hc)
  have hperm := hv.rows_perm_map hv' (Row.key_flaggedIn course now) hrow
  unfold dueRows incompleteRows
  refine (hperm.filter _).trans ?_
  rw [List.filter_map]
  refine List.Perm.map _ ((List.filter_append_perm Row.isComplete _).symm.trans ?_)
  rw [List.filter_filter, List.filter_filter, List.filter_filter]
  refine List.Perm.of_eq (congrArg₂ _ ?_ ?_)
  all_goals
    refine List.filter_congr fun row _ => ?_
    rw [Function.comp_apply, hdue]
    rcases Bool.eq_false_or_eq_true row.isComplete with hc | hc <;> simp [hc]

end CompletionTable

/-! ## the first pass -/

/-- what the first pass leaves: the incomplete rows of the course flagged for now, and everything
else as it was -/
structure Session.Flags (s : Session) (course : Int) (s' : Session) : Prop where
  rows : ∀ k, s'.table.row? k = (s.table.row? k).map (Row.flaggedIn course s.now)
  lastId : s'.table.lastId = s.table.lastId
  store : s'.store = { s.store with completions := s'.table }
  now : s'.now = s.now
  calm : s'.Calm

namespace Action

variable {s : Session} {course : Int} {r : Record} {rs : List Record}

/-- A record of a row is written over it with its flag. -/
theorem flag_over (hs : s.Calm) {row : Row} (hrow : s.table.row? r.key = some row)
    (hread : row.Reads r) (now : Instant) :
    ∃ o s', ((Commit.flag now).run r).run s = (.ok o, s') ∧
      s.Rewrites [Row.ofFlagged now r] s' := by
  have hwritten : Row.ofFlagged now r = .ofRecord (r.flag now) row.id (row.version + 1) := by
    unfold Row.ofFlagged
    rw [hread.id, hread.version]
    rfl
  have hsave := CompletionTable.save_over (w := r.flag now) hrow hread.isStored hread.version
  have hrun := save_run hs (r.flag now)
  rw [Session.enrolled_of_isStored (r := r.flag now) hread.isStored,
    Session.put_of_ok hsave] at hrun
  rw [hwritten]
  exact ⟨_, _, run_bind_ok hrun _, hs, rfl, rfl, rfl, fun _ => rfl⟩

/-- Stored records are flagged over their rows. -/
theorem flagEach_run (hs : s.Calm) (hr : Fresh rs s.table) (hmem : ∀ r ∈ rs, r.isStored = true)
    (now : Instant) :
    ∃ s', (flagEach now rs).run s = (.ok (), s') ∧
      s.Rewrites (rs.map (Row.ofFlagged now)) s' := by
  induction rs generalizing s with
  | nil => exact ⟨s, rfl, .refl hs⟩
  | cons r rs ih =>
    obtain ⟨row, hrow, hread⟩ := hr.head.exists_row (hmem r List.mem_cons_self)
    obtain ⟨o, s₁, hrun, hw⟩ := flag_over hs hrow hread now
    obtain ⟨s', hrun', hw'⟩ :=
      ih hw.calm (hw.fresh_tail (r := r) rfl hr) fun x hx => hmem x (List.mem_cons_of_mem r hx)
    refine ⟨s', ?_, hw.trans hw'⟩
    rw [flagEach_cons]
    exact (run_bind_ok hrun _).trans hrun'

/-- A course whose rows can be read is flagged, and its incomplete rows are counted. -/
theorem flagCourse_run (hs : s.Calm) (hv : s.table.Valid)
    (hread : ∀ row ∈ s.table.rows, row.course = course → row.Readable) :
    ∃ rows s', (flagCourse course).run s = (.ok (s.table.incompleteRows course).length, s') ∧
      s.Rewrites rows s' ∧ s.Flags course s' := by
  obtain ⟨rs, hfind⟩ := CompletionTable.findByCourse_isOk_iff.2 hread
  obtain ⟨rows, hrows, hreads⟩ := CompletionTable.exists_reads_filter hfind
    (p := fun row => row.isComplete = false) (q := fun r => !r.isComplete) fun h => by
      rw [h.isComplete, Bool.not_eq_true']
  have hfresh : Fresh (rs.filter (!·.isComplete)) s.table :=
    (Fresh.of_findByCourse hv hfind).sublist List.filter_sublist
  have hstored : ∀ r ∈ rs.filter (!·.isComplete), r.isStored = true := fun r hr => by
    obtain ⟨row, -, h⟩ := CompletionTable.row_of_reads hreads hr
    exact h.isStored
  obtain ⟨s', hrun, hw⟩ := flagEach_run hs hfresh hstored s.now
  have hmem : ∀ row, row ∈ rows ↔
      row ∈ s.table.rows ∧ row.course = course ∧ row.isComplete = false := fun row =>
    hrows.mem_iff.trans CompletionTable.mem_incompleteRows
  refine ⟨_, s', ?_, hw, ?_, ?_, hw.store, hw.now, hw.calm⟩
  · unfold flagCourse
    refine (run_bind_ok (now_run s) _).trans ((run_bind_ok (findByCourse_ok hs hfind) _).trans ?_)
    refine (run_bind_ok hrun _).trans ?_
    rw [← hreads.length_eq, hrows.length_eq]
    rfl
  · intro k
    rcases hw.row?_cases hv (fun row h => ((hmem row).1 h).1) hreads hfresh (fun _ => rfl) k with
      ⟨row, r, hrow, h, hr, hafter⟩ | ⟨hnot, hsame⟩
    · obtain ⟨-, hc, hopen⟩ := (hmem row).1 h
      rw [hafter, hrow, Option.map_some, hr.ofFlagged hc hopen]
    · rw [hsame]
      cases hrow : s.table.row? k with
      | none => rfl
      | some row =>
        have hkept : ¬(row.course = course ∧ row.isComplete = false) := fun h =>
          hnot row hrow ((hmem row).2 ⟨CompletionTable.mem_of_row? hrow, h⟩)
        rw [Option.map_some]
        exact congrArg some (if_neg hkept).symm
  · rw [hw.table, CompletionTable.lastId_putAll]

end Action

/-! ## the second pass -/

/-- The row of a record is complete when the record is. -/
theorem Row.isComplete_ofRecord {r : Record} (h : r.Known) (id : Int) (version : Nat) :
    (ofRecord r id version).isComplete = r.isComplete := by
  rw [← (h.reads id version).isComplete]
  exact Option.isSome_map

namespace Session

variable {s s₁ s' : Session} {course : Int} {settings : TrackingSettings} {row : Row} {r : Record}
  {summary : SweepSummary}

theorem known_reviewed (hnow : s.now.IsKnown) (h : r.Known) : (s.reviewed settings r).Known := by
  unfold reviewed
  split
  · exact h.markComplete (Action.isKnown_timeOrNow _ hnow)
  · exact h

theorem isComplete_reviewed (s : Session) (settings : TrackingSettings) (r : Record) :
    (s.reviewed settings r).isComplete = (r.isComplete || s.fulfils settings r.key) := by
  unfold reviewed
  by_cases hf : s.fulfils settings r.key = true
  · rw [if_pos hf, hf, Bool.or_true]
    unfold Record.markComplete
    split
    · assumption
    · rfl
  · rw [if_neg hf, Bool.eq_false_iff.2 hf, Bool.or_false]

/-- A row is swept complete if it was complete, or its criteria complete it. -/
theorem isComplete_swept (hnow : s.now.IsKnown) (h : row.Reads r) (settings : TrackingSettings) :
    (s.swept settings r).isComplete = (row.isComplete || s.fulfils settings row.key) := by
  unfold swept
  rw [Row.isComplete_ofRecord (known_reviewed hnow h.known.unflag), isComplete_reviewed,
    ← h.isComplete, ← h.key]
  rfl

end Session

/-- A sweep leaves no row of the course due, and completes the due rows that their criteria
complete. -/
theorem Action.runPending_completes {s : Session} (hs : s.Calm) (hv : s.table.Valid)
    (hnow : s.now.IsKnown) {course : Int} {settings : TrackingSettings}
    (htrack : s.tracking? course = some settings)
    (hread : ∀ row ∈ s.table.rows, row.course = course → row.Readable) :
    ∃ summary s', (runPending course).run s = (.ok summary, s') ∧
      s.Sweeps course settings summary s' ∧ s'.table.dueRows course s.now = [] ∧
      ∀ row ∈ s.table.dueRows course s.now, ∃ after, s'.table.row? row.key = some after ∧
        after.isComplete = (row.isComplete || s.fulfils settings row.key) := by
  obtain ⟨rs, hfind⟩ := CompletionTable.findByCourse_isOk_iff.2 hread
  obtain ⟨rows, hrows, hreads⟩ := CompletionTable.exists_reads_dueRows hfind s.now
  obtain ⟨hfresh, s', hrun, hw⟩ := sweepEach_due hs hv htrack hfind (.refl _)
  rw [← runPending_of_tracking hs htrack hfind] at hrun
  refine ⟨_, s', hrun, Session.sweeps_of_rewrites hs hv htrack hrows hreads hfresh hw, ?_,
    fun row hdue => ?_⟩
  · refine List.eq_nil_iff_forall_not_mem.2 fun row hdue => ?_
    obtain ⟨hmem, hcourse, hflag⟩ := CompletionTable.mem_dueRows.1 hdue
    rcases Session.of_mem_swept hv hrows hreads hfresh hw hmem with ⟨r, rfl⟩ | ⟨hold, hnot⟩
    · rw [s.swept_eq] at hflag
      exact absurd hflag.1 (Int.lt_irrefl 0)
    · exact hnot (CompletionTable.mem_dueRows.2 ⟨hold, hcourse, hflag⟩)
  · have hrow := hv.row?_of_mem (CompletionTable.mem_dueRows.1 hdue).1
    rcases Session.swept_cases hv hrows hreads hfresh hw row.key with
      ⟨row', r, hrow', -, hr, hafter⟩ | ⟨hnot, -⟩
    · obtain rfl := Option.some.inj (hrow.symm.trans hrow')
      exact ⟨_, hafter, Session.isComplete_swept hnow hr settings⟩
    · exact absurd hdue (hnot row hrow)

/-! ## both passes -/

/-- what both passes leave, where the course tracks completion: the rows of the course are complete
that were complete, or that their criteria complete, and none is due -/
structure Session.Refreshes (s : Session) (course : Int) (settings : TrackingSettings)
    (summary : SweepSummary) (s' : Session) : Prop where
  processed : summary.processed = (s.table.incompleteRows course).length +
    (s.table.dueRows course s.now).countP Row.isComplete
  completed : summary.completed =
    (s.table.incompleteRows course).countP fun row => s.fulfils settings row.key
  complete : ∀ k row, k.course = course → s.table.row? k = some row →
    ∃ after, s'.table.row? k = some after ∧
      after.isComplete = (row.isComplete || s.fulfils settings k)
  due : s'.table.dueRows course s.now = []
  absent : ∀ k, s.table.row? k = none → s'.table.row? k = none
  others : ∀ k, k.course ≠ course → s'.table.row? k = s.table.row? k
  lastId : s'.table.lastId = s.table.lastId
  store : s'.store = { s.store with completions := s'.table }
  now : s'.now = s.now
  calm : s'.Calm

namespace Session.Flags

variable {s s₁ s' : Session} {course : Int} {settings : TrackingSettings} {summary : SweepSummary}
  {rows : List Row} {k : Key} {row : Row}

/-- Rows of other courses are not flagged. -/
theorem row?_of_ne (h : s.Flags course s₁) (hk : k.course ≠ course) :
    s₁.table.row? k = s.table.row? k := by
  rw [h.rows]
  cases hrow : s.table.row? k with
  | none => rfl
  | some row =>
    have hcourse := CompletionTable.course_of_row? hrow
    exact congrArg some (if_neg fun h => hk (hcourse.symm.trans h.1))

/-- The rows of the course can be read still. -/
theorem readable (h : s.Flags course s₁) (hv₁ : s₁.table.Valid)
    (hread : ∀ row ∈ s.table.rows, row.course = course → row.Readable) :
    ∀ row ∈ s₁.table.rows, row.course = course → row.Readable := by
  intro row hmem hc
  have hrow := hv₁.row?_of_mem hmem
  rw [h.rows] at hrow
  obtain ⟨old, hold, rfl⟩ := Option.map_eq_some_iff.1 hrow
  rw [Row.course_flaggedIn] at hc
  exact (hread old (CompletionTable.mem_of_row? hold) hc).flaggedIn course s.now

/-- The second pass goes through the complete rows that were due, and the flagged ones. -/
theorem dueRows (h : s.Flags course s₁) (hv : s.table.Valid) (hv₁ : s₁.table.Valid)
    (hnow : s.now.IsKnown) :
    (s₁.table.dueRows course s₁.now).Perm
      (((s.table.dueRows course s.now).filter Row.isComplete ++ s.table.incompleteRows course).map
        (Row.flaggedIn course s.now)) := by
  rw [h.now]
  exact hv.dueRows_flagged hv₁ hnow h.rows

/-- Of these rows, those are completed that were not complete and whose criteria complete them. -/
theorem countP_completes (h : s.Flags course s₁) (hv : s.table.Valid) (hnow : s.now.IsKnown)
    (hw : s.Rewrites rows s₁) :
    (s₁.table.dueRows course s₁.now).countP (fun row => s₁.Completes settings row) =
      (s.table.incompleteRows course).countP fun row => s.fulfils settings row.key := by
  have hcompletes : ∀ row : Row, s₁.Completes settings (row.flaggedIn course s.now) ↔
      row.isComplete = false ∧ s.fulfils settings row.key = true := by
    intro row
    rw [completes_iff, Row.isComplete_flaggedIn, Row.key_flaggedIn, hw.fulfils]
  have hclosed : ∀ row ∈ (s.table.dueRows course s.now).filter Row.isComplete,
      ¬s₁.Completes settings (row.flaggedIn course s.now) := by
    intro row hrow hnew
    have hcomplete := (List.mem_filter.1 hrow).2
    rw [((hcompletes row).1 hnew).1] at hcomplete
    cases hcomplete
  have hopen : ∀ row ∈ s.table.incompleteRows course,
      (s₁.Completes settings (row.flaggedIn course s.now) ↔ s.fulfils settings row.key = true) :=
    fun row hrow =>
      (hcompletes row).trans (and_iff_right (CompletionTable.mem_incompleteRows.1 hrow).2.2)
  rw [(h.dueRows hv (hw.valid hv) hnow).countP_eq, List.countP_map, List.countP_append,
    List.countP_eq_zero.2 fun row hrow => by simpa using hclosed row hrow, Nat.zero_add]
  exact List.countP_congr fun row hrow => by simpa using hopen row hrow

/-- After both passes a row of the course is complete if it was complete, or its criteria complete
it. -/
theorem complete (h : s.Flags course s₁) (hnow : s.now.IsKnown) (hw : s.Rewrites rows s₁)
    (hsweeps : s₁.Sweeps course settings summary s')
    (hswept : ∀ row ∈ s₁.table.dueRows course s₁.now, ∃ after,
      s'.table.row? row.key = some after ∧
        after.isComplete = (row.isComplete || s₁.fulfils settings row.key))
    (hk : k.course = course) (hrow : s.table.row? k = some row) :
    ∃ after, s'.table.row? k = some after ∧
      after.isComplete = (row.isComplete || s.fulfils settings k) := by
  have hkey := CompletionTable.key_of_row? hrow
  have hcourse : row.course = course := (CompletionTable.course_of_row? hrow).trans hk
  have hdue := Row.due_flaggedIn_iff hnow hcourse
  have hrow₁ : s₁.table.row? k = some (row.flaggedIn course s.now) := by
    rw [h.rows, hrow, Option.map_some]
  by_cases hflagged : row.isComplete = false ∨ row.Due s.now
  · have hmem : row.flaggedIn course s.now ∈ s₁.table.dueRows course s₁.now := by
      rw [h.now]
      exact CompletionTable.mem_dueRows.2 ⟨CompletionTable.mem_of_row? hrow₁,
        (row.course_flaggedIn course s.now).trans hcourse, hdue.2 hflagged⟩
    obtain ⟨after, hafter, hcomplete⟩ := hswept _ hmem
    rw [Row.key_flaggedIn, hkey] at hafter
    rw [Row.key_flaggedIn, hkey, Row.isComplete_flaggedIn, hw.fulfils] at hcomplete
    exact ⟨after, hafter, hcomplete⟩
  · -- a row that neither pass touches is complete
    refine ⟨_, (hsweeps.others k fun row' hrow' hdue' => ?_).trans hrow₁, ?_⟩
    · rw [h.now] at hdue'
      obtain rfl := Option.some.inj (hrow₁.symm.trans hrow')
      exact hflagged (hdue.1 hdue'.2)
    · rw [Row.isComplete_flaggedIn, Bool.of_not_eq_false fun hopen => hflagged (.inl hopen),
        Bool.true_or]

theorem others (h : s.Flags course s₁) (hsweeps : s₁.Sweeps course settings summary s')
    (hk : k.course ≠ course) : s'.table.row? k = s.table.row? k := by
  refine (hsweeps.others k fun row hrow hdue => ?_).trans (h.row?_of_ne hk)
  exact hk ((CompletionTable.course_of_row? hrow).symm.trans hdue.1)

theorem absent (h : s.Flags course s₁) (hsweeps : s₁.Sweeps course settings summary s')
    (hnone : s.table.row? k = none) : s'.table.row? k = none := by
  have hnone₁ : s₁.table.row? k = none := by rw [h.rows, hnone, Option.map_none]
  refine (hsweeps.others k fun row hrow => ?_).trans hnone₁
  rw [hnone₁] at hrow
  cases hrow

/-- Both passes together leave what `Session.Refreshes` says. -/
theorem refreshes (h : s.Flags course s₁) (hv : s.table.Valid) (hnow : s.now.IsKnown)
    (hw : s.Rewrites rows s₁) (hsweeps : s₁.Sweeps course settings summary s')
    (hdue : s'.table.dueRows course s₁.now = [])
    (hswept : ∀ row ∈ s₁.table.dueRows course s₁.now, ∃ after,
      s'.table.row? row.key = some after ∧
        after.isComplete = (row.isComplete || s₁.fulfils settings row.key)) :
    s.Refreshes course settings summary s' where
  processed := by
    rw [hsweeps.processed, (h.dueRows hv (hw.valid hv) hnow).length_eq, List.length_map,
      List.length_append, Nat.add_comm, List.countP_eq_length_filter]
  completed := hsweeps.completed.trans (h.countP_completes hv hnow hw)
  complete _ _ hk hrow := h.complete hnow hw hsweeps hswept hk hrow
  due := h.now ▸ hdue
  absent _ hnone := h.absent hsweeps hnone
  others _ hk := h.others hsweeps hk
  lastId := hsweeps.lastId.trans h.lastId
  store := by rw [hsweeps.store, h.store]
  now := hsweeps.now.trans h.now
  calm := hsweeps.calm

end Session.Flags

/-- **A course is brought up to date when all of it is evaluated again.**  Where its rows can be
read, the command counts its incomplete rows.  If the course tracks completion, the command leaves
what `Session.Refreshes` says.  If it does not, nothing is swept, and the incomplete rows are left
with a flag for now.  Whatever the fraction of its second, the clock stands after the epoch: a flag
for second `0` would be stored as none. -/
theorem reaggregate_all_brings_course_up_to_date {s : Session} (hs : s.Calm) (hv : s.table.Valid)
    (hnow : s.now.IsKnown) {course : Int}
    (hread : ∀ row ∈ s.table.rows, row.course = course → row.Readable) :
    ∃ summary s', (Command.reaggregate course true).run s =
        (.ok (.sweep (s.table.incompleteRows course).length summary), s') ∧
      (∀ settings, s.store.settings? course = some settings → settings.enabled = true →
        s.Refreshes course settings summary s') ∧
      (s.store.tracks course = false → summary = ⟨0, 0⟩ ∧ s.Flags course s') := by
  let fresh : Session := s.withMemory []
  have hfresh : fresh.Calm := hs
  obtain ⟨rows, s₁, hflag, hw, hflags⟩ := Action.flagCourse_run hfresh hv hread
  have hrun : ∀ {summary s'}, (Action.runPending course).run s₁ = (.ok summary, s') →
      (Command.reaggregate course true).run s =
        (.ok (.sweep (s.table.incompleteRows course).length summary), s') := by
    intro summary s' hsweep
    have hboth : (Command.reaggregation course true).run fresh =
        (.ok (.sweep (s.table.incompleteRows course).length summary), s') :=
      (Action.run_bind_ok hflag _).trans (Action.run_bind_ok hsweep _)
    exact Command.run_of_action (c := .reaggregate course true) rfl hboth
  cases htrack : fresh.tracking? course with
  | none =>
    have htrack₁ : s₁.tracking? course = none := (hw.tracking? course).trans htrack
    obtain ⟨memory, hsweep⟩ := Action.runPending_of_not_tracking hw.calm htrack₁
    refine ⟨_, _, hrun hsweep, fun settings hsettings he => ?_, fun _ => ⟨rfl, ?_⟩⟩
    · rw [Session.tracking?_of_settings? (s := fresh) rfl hsettings he] at htrack
      cases htrack
    · exact ⟨hflags.rows, hflags.lastId, hflags.store, hflags.now, hflags.calm⟩
  | some settings =>
    have hv₁ := hw.valid hv
    obtain ⟨summary, s', hsweep, hsweeps, hdue, hswept⟩ := Action.runPending_completes hw.calm hv₁
      (hw.now ▸ hnow) ((hw.tracking? course).trans htrack) (hflags.readable hv₁ hread)
    have hrefreshes := hflags.refreshes hv hnow hw hsweeps hdue hswept
    refine ⟨summary, s', hrun hsweep, fun settings' hsettings he => ?_, fun hnot => ?_⟩
    · rw [Session.tracking?_of_settings? (s := fresh) rfl hsettings he] at htrack
      obtain rfl := Option.some.inj htrack
      exact { hrefreshes with }
    · rw [Action.tracking?_eq_none (s := fresh) (.of_nil rfl) hnot] at htrack
      cases htrack

/-- half a second past the second that flags are set for: a course that tracks completion, with two
incomplete rows, one of them flagged for later and completed by its criteria, and two complete ones,
one of them due; and one that does not -/
theorem two_courses_brought_up_to_date :
    let later : Row := ⟨4, 1, 7, 100, 0, 0, 5000, 3⟩
    let other : Row := ⟨6, 5, 8, 100, 0, 0, 5000, 1⟩
    let done : Row := ⟨7, 6, 8, 100, 110, 130, 0, 4⟩
    let s : Session := .start
      { Store.ofSnapshot
          { Snapshot.empty with
            completions := [later, ⟨9, 2, 7, 100, 120, 0, 0, 1⟩, other,
              ⟨2, 3, 7, 100, 110, 130, 1, 5⟩, ⟨5, 4, 7, 100, 0, 140, 5000, 1⟩, done] } true with
        settings := [⟨7, .on .any⟩, ⟨8, .off⟩]
        criteria := [⟨1, 7, .activity, "quiz"⟩, ⟨2, 8, .activity, "essay"⟩]
        marks := [⟨1, 1, some ⟨150, 5, by decide, by decide⟩⟩, ⟨5, 2, some .epoch⟩] }
      ⟨900, 500000000, by decide, by decide⟩
    (∃ s', (Command.reaggregate 7 true).run s = (.ok (.sweep 2 ⟨3, 1⟩), s') ∧
      (∃ after, s'.table.row? ⟨1, 7⟩ = some after ∧ after.isComplete = true) ∧
      (∃ after, s'.table.row? ⟨2, 7⟩ = some after ∧ after.isComplete = false) ∧
      s'.table.dueRows 7 s.now = [] ∧ s'.table.row? ⟨5, 8⟩ = some other) ∧
    ∃ s', (Command.reaggregate 8 true).run s = (.ok (.sweep 1 ⟨0, 0⟩), s') ∧
      s'.table.row? ⟨5, 8⟩ = some ⟨6, 5, 8, 100, 0, 0, 900, 2⟩ ∧
      s'.table.row? ⟨6, 8⟩ = some done ∧ s'.table.row? ⟨1, 7⟩ = some later := by
  intro later other done s
  have hv : s.table.Valid := CompletionTable.valid_ofRows _ _
  have hread : ∀ course, ∀ row ∈ s.table.rows, row.course = course → row.Readable :=
    fun _ row hrow _ => (by decide : ∀ row ∈ s.table.rows, row.Readable) row hrow
  constructor
  · obtain ⟨⟨processed, completed⟩, s', hrun, htracked, -⟩ :=
      reaggregate_all_brings_course_up_to_date (s := s) rfl hv (by decide) (hread 7)
    have h := htracked (.on .any) (by decide) rfl
    obtain rfl : processed = 3 := h.processed.trans (by decide)
    obtain rfl : completed = 1 := h.completed.trans (by decide)
    rw [show (s.table.incompleteRows 7).length = 2 by decide] at hrun
    refine ⟨s', hrun, ?_, ?_, h.due, ?_⟩
    · exact h.complete ⟨1, 7⟩ later rfl (by decide)
    · exact h.complete ⟨2, 7⟩ ⟨9, 2, 7, 100, 120, 0, 0, 1⟩ rfl (by decide)
    · exact (h.others ⟨5, 8⟩ (by decide)).trans (by decide)
  · obtain ⟨summary, s', hrun, -, huntracked⟩ :=
      reaggregate_all_brings_course_up_to_date (s := s) rfl hv (by decide) (hread 8)
    obtain ⟨rfl, h⟩ := huntracked (by decide)
    rw [show (s.table.incompleteRows 8).length = 1 by decide] at hrun
    refine ⟨s', hrun, ?_, ?_, ?_⟩
    · exact (h.rows ⟨5, 8⟩).trans (by decide)
    · exact (h.rows ⟨6, 8⟩).trans (by decide)
    · exact (h.rows ⟨1, 7⟩).trans (by decide)

end CourseCompletion
