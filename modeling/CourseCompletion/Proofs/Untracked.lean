import CourseCompletion.Proofs.Refusal

/-!
# Courses that do not track completion

A course without settings, or with settings that are not enabled, is left alone by enrolments, by
the start of all its users, by sweeps, and by the evaluation of a record that is not complete: the
table of completions stays as it was, and nothing is published.

The evaluation of a complete record is the exception.  It stores the record again before it asks
whether the course tracks completion (`aggregate_rewrites_complete`), so that the version of the row
goes on and columns below the epoch become `0` (`Row.restored`).  No other row changes.
-/

namespace CourseCompletion

/-! ## a row that is stored again -/

/-- the row of a record that was read from a row and is stored again: cleared, and with the next
version -/
def Row.restored (row : Row) : Row := { row.cleared with version := row.version + 1 }

theorem Row.Reads.ofRecord {row : Row} {r : Record} (h : row.Reads r) :
    Row.ofRecord r row.id (row.version + 1) = row.restored := h.ofRecord_eq _

/-- A record that was read is stored over its row, and nowhere else. -/
theorem CompletionTable.save_read {t : CompletionTable} {k : Key} {row : Row} {r : Record}
    (hrow : t.row? k = some row) (h : row.Reads r) :
    ∃ saved t', t.save r = .ok (saved, t') ∧
      ∀ k', t'.row? k' = if k' = k then some row.restored else t.row? k' := by
  have hkey : r.key = k := h.key.trans (key_of_row? hrow)
  have hloads : k.Loads (t.row? k) r := by
    rw [hrow]
    exact ⟨key_of_row? hrow, h⟩
  obtain ⟨saved, t', hsave⟩ := hloads.exists_save hkey rfl rfl
  have hsaved := saved_of_save hsave
  have hwritten : rowOf saved = row.restored := by
    obtain ⟨id, hid⟩ := hsaved.saved_eq
    have hrow' : t.row? r.key = some row := by rw [hkey, hrow]
    rw [hrow'] at hid
    have hsame : saved.id = some row.id := hsaved.id row hrow'
    rw [hid] at hsame ⊢
    obtain rfl := Option.some.inj hsame
    exact h.ofRecord
  refine ⟨saved, t', hsave, fun k' => ?_⟩
  rw [hsaved.row? k', hkey, hwritten]

/-- Nobody is started in a course that does not track completion. -/
theorem Store.admits_eq_false {s : Store} {course : Int} (hc : s.tracks course = false) (user : Int)
    (starts : Option Instant) : s.admits ⟨user, course, starts⟩ = false := by
  unfold tracks at hc
  unfold admits
  cases hsettings : s.settings? course with
  | none => simp
  | some settings =>
    rw [hsettings] at hc
    have henabled : settings.enabled = false := hc
    simp [henabled]

/-! ## the operations -/

namespace Action

variable {s : Session} {course : Int}

theorem tracking?_eq_none (hf : s.Faithful) (hc : s.store.tracks course = false) :
    s.tracking? course = none := by
  rw [← Option.not_isSome_iff_eq_none, tracking?_isSome hf, hc]
  exact Bool.false_ne_true

theorem userEnrolled_untracked (hs : s.Calm) (hf : s.Faithful)
    (hc : s.store.tracks course = false) (user : Int) (starts : Option Instant) :
    ∃ reason memory, (userEnrolled ⟨user, course, starts⟩).run s =
      (.ok (.ignored reason), s.withMemory memory) := by
  have hrun := userEnrolled_eq hs ⟨user, course, starts⟩
  cases hignored : s.ignored? ⟨user, course, starts⟩ with
  | some reason =>
    rw [hignored] at hrun
    obtain ⟨memory, hrun⟩ := hrun
    exact ⟨reason, memory, hrun⟩
  | none =>
    have hadmits := (ignored?_eq_none_iff hf _).1 hignored
    rw [Store.admits_eq_false hc] at hadmits
    cases hadmits

theorem startUsers_untracked (hs : s.Calm) (hf : s.Faithful)
    (hc : s.store.tracks course = false) :
    ∃ memory, (startUsers course).run s = (.ok ⟨0, 0⟩, s.withMemory memory) :=
  startUsers_of_not_tracking hs (tracking?_eq_none hf hc)

theorem runPending_untracked (hs : s.Calm) (hf : s.Faithful)
    (hc : s.store.tracks course = false) :
    ∃ memory, (runPending course).run s = (.ok ⟨0, 0⟩, s.withMemory memory) :=
  runPending_of_not_tracking hs (tracking?_eq_none hf hc)

/-! ### the evaluation of a record -/

/-- A record that cannot be read is not evaluated. -/
theorem aggregate_unreadable (hs : s.Calm) {k : Key} (h : s.table.unreadable k = true) :
    ∃ e, (aggregate k).run s = (.error e, s) ∧ Refusal.unreadable.Tells e := by
  cases hfind : s.table.find k with
  | ok found =>
    rw [CompletionTable.readable_of_find hfind] at h
    cases h
  | error e =>
    have hload : (load k).run s = (.error e.toServiceError, s) := by
      rw [load_run hs, CompletionTable.load, hfind]
      rfl
    exact ⟨_, run_bind_error hload _, (CompletionTable.unreadable_of_find hfind).2⟩

/-- A record that is not complete, or not there, is not stored. -/
theorem aggregate_untracked (hs : s.Calm) (hf : s.Faithful) {k : Key} {r : Record}
    (hc : s.store.tracks k.course = false) (h : k.Loads (s.table.row? k) r)
    (hr : r.isComplete = false) :
    ∃ memory, (aggregate k).run s = (.ok .notApplicable, s.withMemory memory) := by
  have hcourse : r.course = k.course := congrArg Key.course h.key
  refine ⟨s.recalled k.course, ?_⟩
  rw [aggregate_of_loads hs h]
  unfold aggregateRecord
  rw [hr, if_neg Bool.false_ne_true, hcourse, run_bind_ok (tracking?_run hs k.course),
    tracking?_eq_none hf hc]
  rfl

/-- A complete record is stored again, whether its course tracks completion or not. -/
theorem aggregate_rewrites_complete (hs : s.Calm) {k : Key} {row : Row}
    (hrow : s.table.row? k = some row) (hread : row.Readable) (hc : row.isComplete = true) :
    ∃ saved t, (aggregate k).run s = (.ok (.alreadyComplete saved), s.withTable t) ∧
      ∀ k', t.row? k' = if k' = k then some row.restored else s.table.row? k' := by
  obtain ⟨r, hr⟩ := Row.readable_iff.1 hread
  have hloads : k.Loads (s.table.row? k) r := by
    rw [hrow]
    exact ⟨CompletionTable.key_of_row? hrow, hr⟩
  obtain ⟨saved, t, hsave, hrows⟩ := CompletionTable.save_read hrow hr
  have hput : (save r).run s = (.ok saved, s.withTable t) := by
    rw [save_run hs, Session.enrolled_of_isStored hr.isStored, Session.put_of_ok hsave]
  refine ⟨saved, t, ?_, hrows⟩
  rw [aggregate_of_loads hs hloads]
  unfold aggregateRecord
  rw [hr.isComplete, hc, if_pos rfl]
  exact run_bind_ok hput _

end Action

/-- **Courses that do not track completion are left alone, but for their complete records.**  No
operation publishes anything.  Enrolments, the start of all users, sweeps, and the evaluation of a
record that is absent, unreadable or not complete change nothing but the memory of settings.  The
evaluation of a complete record stores its row again, and touches no other row. -/
theorem untracked_left_alone_unless_complete {s : Session} (hs : s.Calm) (hf : s.Faithful)
    {course : Int} (hc : s.store.tracks course = false) :
    (∀ user starts, ∃ reason memory, (Action.userEnrolled ⟨user, course, starts⟩).run s =
      (.ok (.ignored reason), s.withMemory memory)) ∧
    (∃ memory, (Action.startUsers course).run s = (.ok ⟨0, 0⟩, s.withMemory memory)) ∧
    (∃ memory, (Action.runPending course).run s = (.ok ⟨0, 0⟩, s.withMemory memory)) ∧
    ∀ user, let k : Key := ⟨user, course⟩
      match s.table.row? k with
      | none => ∃ memory, (Action.aggregate k).run s = (.ok .notApplicable, s.withMemory memory)
      | some row =>
        if ¬row.Readable then
          ∃ e, (Action.aggregate k).run s = (.error e, s) ∧ Refusal.unreadable.Tells e
        else if row.isComplete then
          ∃ saved t, (Action.aggregate k).run s = (.ok (.alreadyComplete saved), s.withTable t) ∧
            ∀ k', t.row? k' = if k' = k then some row.restored else s.table.row? k'
        else ∃ memory, (Action.aggregate k).run s = (.ok .notApplicable, s.withMemory memory) := by
  refine ⟨Action.userEnrolled_untracked hs hf hc, Action.startUsers_untracked hs hf hc,
    Action.runPending_untracked hs hf hc, fun user => ?_⟩
  intro k
  cases hrow : s.table.row? k with
  | none =>
    have hloads : k.Loads (s.table.row? k) (.new k) := by
      rw [hrow]
      rfl
    exact Action.aggregate_untracked hs hf hc hloads rfl
  | some row =>
    show if ¬row.Readable then _ else _
    by_cases hread : row.Readable
    · rw [if_neg (not_not.2 hread)]
      by_cases hcomplete : row.isComplete = true
      · rw [if_pos hcomplete]
        exact Action.aggregate_rewrites_complete hs hrow hread hcomplete
      · rw [if_neg hcomplete]
        obtain ⟨r, hr⟩ := Row.readable_iff.1 hread
        have hloads : k.Loads (s.table.row? k) r := by
          rw [hrow]
          exact ⟨CompletionTable.key_of_row? hrow, hr⟩
        refine Action.aggregate_untracked hs hf hc hloads ?_
        rw [hr.isComplete]
        exact Bool.eq_false_iff.2 hcomplete
    · rw [if_pos hread]
      refine Action.aggregate_unreadable hs ?_
      unfold CompletionTable.unreadable
      rw [hrow]
      exact decide_eq_true hread

/-- a course that is not enabled, with a flagged record that is due and a complete one with a start
below the epoch -/
theorem not_enabled_left_alone :
    let store : Store := { Store.ofSnapshot { Snapshot.empty with completions :=
        [⟨4, 1, 7, 100, -5, 300, 0, 2⟩, ⟨5, 2, 7, 100, 200, 0, 500, 1⟩] } true with
      courses := [⟨7, "c", "course"⟩], users := [⟨1, "u"⟩, ⟨2, "v"⟩, ⟨3, "w"⟩]
      settings := [⟨7, ⟨false, .all, true⟩⟩] }
    let s : Session := .start store ⟨900, 0, by decide, by decide⟩
    (∃ reason memory, (Action.userEnrolled ⟨3, 7, none⟩).run s =
      (.ok (.ignored reason), s.withMemory memory)) ∧
    (∃ memory, (Action.runPending 7).run s = (.ok ⟨0, 0⟩, s.withMemory memory)) ∧
    (∃ memory, (Action.aggregate ⟨2, 7⟩).run s = (.ok .notApplicable, s.withMemory memory)) ∧
    ∃ saved t, (Action.aggregate ⟨1, 7⟩).run s = (.ok (.alreadyComplete saved), s.withTable t) ∧
      t.row? ⟨1, 7⟩ = some ⟨4, 1, 7, 100, 0, 300, 0, 3⟩ ∧
      t.row? ⟨2, 7⟩ = some ⟨5, 2, 7, 100, 200, 0, 500, 1⟩ := by
  intro store s
  have hc : s.store.tracks 7 = false := by decide
  obtain ⟨henrolled, -, hpending, haggregate⟩ :=
    untracked_left_alone_unless_complete (s := s) rfl (.of_nil rfl) hc
  refine ⟨henrolled 3 none, hpending, haggregate 2, ?_⟩
  obtain ⟨saved, t, hrun, hrows⟩ := haggregate 1
  exact ⟨saved, t, hrun, hrows ⟨1, 7⟩, hrows ⟨2, 7⟩⟩

/-- A complete record of a course that does not track completion: its evaluation answers that it is
complete already, and the version of its row goes on. -/
theorem complete_row_rewritten_untracked :
    let row : Row := ⟨1, 1, 1, 100, 200, 300, 0, 1⟩
    let store : Store := { Store.ofSnapshot { Snapshot.empty with completions := [row] } true with
      settings := [⟨1, ⟨false, .all, true⟩⟩] }
    let s : Session := .start store ⟨10000, 0, by decide, by decide⟩
    s.store.tracks 1 = false ∧
    ((Action.aggregate ⟨1, 1⟩).run s).2.table.rows = [{ row with version := 2 }] ∧
    ((Action.aggregate ⟨1, 1⟩).run s).2.table.rows ≠ s.table.rows := by
  decide

end CourseCompletion
