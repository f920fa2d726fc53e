import CourseCompletion.Proofs.Seeding

/-!
# Starting all participants of a course

`Session.Seeds` says what the new rows of a course hold: they are those of the users that it is
told, under the next numbers in the order of the users.

* `participants_started_once`       where every row of a participant can be read, the participants
                                    without a row get one, whatever the order of the windows, and
                                    another run creates nothing, as long as there are 64-bit numbers
                                    left for them (`Session.HasRoom`);
* `failed_start_keeps_rows_before`  else the start fails, and leaves the rows of the participants
                                    before the first whose row cannot be read.
-/

namespace CourseCompletion

/-! ## new rows of a course -/

/-- new rows of a course, one for each user that `begins` tells, as a session begins them: under the
next numbers in the order of the users, enrolled at the earliest start that counts, or else now -/
structure Session.Seeds (s : Session) (course : Int) (settings : TrackingSettings)
    (begins : Int → Prop) (new : List Row) : Prop where
  users : ∀ user, (∃ row ∈ new, row.user = user) ↔ begins user
  course_eq : ∀ row ∈ new, row.course = course
  ascending : new.Pairwise fun a b => a.user < b.user
  ids : new.map Row.id = (List.range new.length).map fun i : Nat => s.table.lastId + 1 + i
  enrolled : ∀ row ∈ new, ∃ earliest, Earliest (s.store.StartIn s.now row.key) earliest ∧
    row.enrolled = (earliest.getD s.now).seconds
  started : ∀ row ∈ new, row.started = if settings.startOnEnrol then s.now.seconds else 0
  blank : ∀ row ∈ new, row.completed = 0 ∧ row.reaggregate = 0 ∧ row.version = 1

namespace Session

variable {s : Session} {course : Int} {settings : TrackingSettings}
  {us : List (Int × Option Instant)}

theorem Seeds.congr {begins begins' : Int → Prop} {new : List Row}
    (h : s.Seeds course settings begins new) (hb : ∀ user, begins user ↔ begins' user) :
    s.Seeds course settings begins' new :=
  { h with users := fun user => (h.users user).trans (hb user) }

/-- a new row of a newcomer -/
theorem of_mem_newcomers {row : Row} (h : row ∈ CompletionTable.rowsAfter s.table.lastId
      (s.table.newcomers course settings.startOnEnrol s.now us)) :
    ∃ u ∈ us, s.table.row? ⟨u.1, course⟩ = none ∧ ∃ id, row =
      ⟨id, u.1, course, (u.2.getD s.now).seconds,
        if settings.startOnEnrol then s.now.seconds else 0, 0, 0, 1⟩ := by
  obtain ⟨r, hr, id, rfl⟩ := CompletionTable.of_mem_rowsAfter h
  obtain ⟨u, hu, rfl⟩ := List.mem_map.1 hr
  obtain ⟨hmem, hnone⟩ := List.mem_filter.1 hu
  exact ⟨u, hmem, Option.isNone_iff_eq_none.1 hnone, id, Action.ofRecord_firstRecord _ _ _ _ _ _⟩

/-- The rows of newcomers are those that a session begins. -/
theorem seeds_newcomers (hus : us.Pairwise fun a b => a.1 < b.1)
    (hstart : ∀ u ∈ us, Earliest (s.store.StartIn s.now ⟨u.1, course⟩) u.2) :
    s.Seeds course settings
      (fun user => (∃ e, (user, e) ∈ us) ∧ s.table.row? ⟨user, course⟩ = none)
      (CompletionTable.rowsAfter s.table.lastId
        (s.table.newcomers course settings.startOnEnrol s.now us)) where
  users := by
    intro user
    constructor
    · rintro ⟨row, hrow, rfl⟩
      obtain ⟨u, hu, hnone, id, rfl⟩ := of_mem_newcomers hrow
      exact ⟨⟨u.2, hu⟩, hnone⟩
    · rintro ⟨⟨e, he⟩, hnone⟩
      obtain ⟨id, hrow⟩ := CompletionTable.exists_mem_rowsAfter s.table.lastId
        (CompletionTable.mem_newcomers he hnone)
      exact ⟨_, hrow, by rw [Action.ofRecord_firstRecord]⟩
  course_eq := by
    intro row hrow
    obtain ⟨u, hu, -, id, rfl⟩ := of_mem_newcomers hrow
    rfl
  ascending := by
    refine (List.pairwise_map (f := Row.user) (R := (· < ·))).1 ?_
    have husers : (s.table.newcomers course settings.startOnEnrol s.now us).map Record.user =
        (us.filter fun u => (s.table.row? ⟨u.1, course⟩).isNone).map Prod.fst := by
      unfold CompletionTable.newcomers
      rw [List.map_map]
      refine List.map_congr_left fun u _ => ?_
      exact congrArg Key.user (Action.key_firstRecord ⟨u.1, course⟩ u.2 _ _)
    rw [CompletionTable.users_rowsAfter, husers]
    exact List.pairwise_map.2 (hus.filter _)
  ids := by
    rw [CompletionTable.length_rowsAfter]
    exact CompletionTable.ids_rowsAfter _ _
  enrolled := by
    intro row hrow
    obtain ⟨u, hu, -, id, rfl⟩ := of_mem_newcomers hrow
    exact ⟨u.2, hstart u hu, rfl⟩
  started := by
    intro row hrow
    obtain ⟨u, hu, -, id, rfl⟩ := of_mem_newcomers hrow
    rfl
  blank := by
    intro row hrow
    obtain ⟨u, hu, -, id, rfl⟩ := of_mem_newcomers hrow
    exact ⟨rfl, rfl, rfl⟩

/-- Every participant has a row then, which can be read if it could be before. -/
theorem exists_row_of_participant {u : Int × Option Instant} (hu : u ∈ us)
    (hread : ∀ row, s.table.row? ⟨u.1, course⟩ = some row → row.Readable) :
    ∃ row, (s.table.append (s.table.newcomers course settings.startOnEnrol s.now us)).row?
      ⟨u.1, course⟩ = some row ∧ row.Readable := by
  cases hold : s.table.row? ⟨u.1, course⟩ with
  | some row => exact ⟨row, CompletionTable.row?_append_of_some hold _, hread row hold⟩
  | none =>
    obtain ⟨row, hrow⟩ :=
      CompletionTable.exists_row?_append s.table (CompletionTable.mem_newcomers hu hold)
    rw [Action.key_firstRecord] at hrow
    refine ⟨row, hrow, (CompletionTable.readable_of_row?_append hrow).resolve_left ?_⟩
    rw [hold]
    exact fun h => by cases h

end Session

/-! ## starting them -/

namespace Session

/-- the session with new rows at the end of the table, under the next numbers -/
def withRows (s : Session) (new : List Row) : Session :=
  s.withTable { s.table with rows := s.table.rows ++ new, lastId := s.table.lastId + new.length }

theorem withRows_rowsAfter (s : Session) (rs : List Record) :
    s.withRows (CompletionTable.rowsAfter s.table.lastId rs) = s.withTable (s.table.append rs) := by
  unfold withRows CompletionTable.append
  rw [CompletionTable.length_rowsAfter]

end Session

namespace Action

variable {s : Session} {course : Int} {settings : TrackingSettings}

/-- A start comes to the first live user whose row cannot be read. -/
theorem startUsers_fails (hs : s.Calm) (htrack : s.tracking? course = some settings)
    {before rest : List (Int × Option Instant)} {u : Int × Option Instant}
    (hus : liveStarts (s.store.courseWindows course) s.now = before ++ u :: rest)
    (hread : ∀ v ∈ before, s.table.unreadable ⟨v.1, course⟩ = false)
    (hu : s.table.unreadable ⟨u.1, course⟩ = true) :
    ∃ e new memory,
      (startUsers course).run s = (.error e, (s.withRows new).withMemory memory) ∧
      Refusal.unreadable.Tells e ∧ s.store.LiveIn s.now ⟨u.1, course⟩ ∧
      (∀ v < u.1, s.store.LiveIn s.now ⟨v, course⟩ → s.table.unreadable ⟨v, course⟩ = false) ∧
      s.Seeds course settings (fun v => v < u.1 ∧ s.store.LiveIn s.now ⟨v, course⟩ ∧
        s.table.row? ⟨v, course⟩ = none) new := by
  let rs := s.table.newcomers course settings.startOnEnrol s.now before
  have hascending := (participants_liveStarts (s.store.courseWindows course) s.now).ascending
  rw [hus] at hascending
  obtain ⟨hbefore, hrest, hlt⟩ := List.pairwise_append.1 hascending
  -- the users before the first one are the live users below it
  have hlive : ∀ v, (∃ e, (v, e) ∈ before) ↔ v < u.1 ∧ s.store.LiveIn s.now ⟨v, course⟩ := by
    intro v
    rw [← exists_mem_liveStarts, hus]
    constructor
    · rintro ⟨e, he⟩
      exact ⟨hlt _ he u List.mem_cons_self, e, List.mem_append_left _ he⟩
    · rintro ⟨hv, e, he⟩
      refine ⟨e, (List.mem_append.1 he).resolve_right fun hmem => ?_⟩
      have habove : u.1 ≤ v := by
        rcases List.mem_cons.1 hmem with rfl | hmem
        · exact Int.le_refl _
        · exact Int.le_of_lt ((List.pairwise_cons.1 hrest).1 _ hmem)
      omega
  obtain ⟨e, hrun, he⟩ := startUsers_error hs htrack hus hread hu
  refine ⟨e, CompletionTable.rowsAfter s.table.lastId rs, s.recalled course, ?_, he, ?_,
    fun v hv hlv => ?_, ?_⟩
  · rw [s.withRows_rowsAfter]
    exact hrun
  · refine exists_mem_liveStarts.1 ⟨u.2, ?_⟩
    rw [hus]
    exact List.mem_append_right _ List.mem_cons_self
  · obtain ⟨e', he'⟩ := (hlive v).2 ⟨hv, hlv⟩
    exact hread _ he'
  · refine (Session.seeds_newcomers hbefore fun v hv => ?_).congr fun v => ?_
    · refine (mem_liveStarts (e := v.2)).1 ?_ |>.2
      rw [hus]
      exact List.mem_append_left _ hv
    · rw [hlive, and_assoc]

end Action

/-- **A start that fails keeps the rows before.**  A start fails exactly if the course tracks
completion and some live user of it has a row that cannot be read.  The users before the first of
these have been started then, and their rows stay; nothing is made known of them. -/
theorem failed_start_keeps_rows_before {s : Session} (hs : s.Calm) (course : Int) :
    ((∃ e s', (Action.startUsers course).run s = (.error e, s')) ↔
      ∃ settings user, s.tracking? course = some settings ∧
        s.store.LiveIn s.now ⟨user, course⟩ ∧ s.table.unreadable ⟨user, course⟩ = true) ∧
    ∀ e s', (Action.startUsers course).run s = (.error e, s') →
      Refusal.unreadable.Tells e ∧
      ∃ settings user new memory, s.tracking? course = some settings ∧
        s.store.LiveIn s.now ⟨user, course⟩ ∧ s.table.unreadable ⟨user, course⟩ = true ∧
        (∀ v < user, s.store.LiveIn s.now ⟨v, course⟩ →
          s.table.unreadable ⟨v, course⟩ = false) ∧
        s.Seeds course settings (fun v => v < user ∧ s.store.LiveIn s.now ⟨v, course⟩ ∧
          s.table.row? ⟨v, course⟩ = none) new ∧
        s' = (s.withRows new).withMemory memory := by
  have hok : ∀ {summary s₁}, (Action.startUsers course).run s = (.ok summary, s₁) →
      ∀ {e s'}, (Action.startUsers course).run s ≠ (.error e, s') := by
    intro summary s₁ hrun e s' hfail
    rw [hrun] at hfail
    cases congrArg Prod.fst hfail
  cases htrack : s.tracking? course with
  | none =>
    obtain ⟨memory, hrun⟩ := Action.startUsers_of_not_tracking hs htrack
    refine ⟨iff_of_false ?_ ?_, fun e s' hfail => absurd hfail (hok hrun)⟩
    · rintro ⟨e, s', hfail⟩
      exact hok hrun hfail
    · rintro ⟨settings, user, h, -⟩
      cases h
  | some settings =>
    rcases s.table.unreadable_cases course (liveStarts (s.store.courseWindows course) s.now) with
      hread | ⟨before, u, rest, hus, hread, hu⟩
    · have hrun := Action.startUsers_run hs htrack rfl hread
      refine ⟨iff_of_false ?_ ?_, fun e s' hfail => absurd hfail (hok hrun)⟩
      · rintro ⟨e, s', hfail⟩
        exact hok hrun hfail
      · rintro ⟨settings', user, -, hlive, hbad⟩
        obtain ⟨e, he⟩ := exists_mem_liveStarts.2 hlive
        exact Bool.false_ne_true ((hread _ he).symm.trans hbad)
    · obtain ⟨e, new, memory, hrun, he, hlive, hbelow, hseeds⟩ :=
        Action.startUsers_fails hs htrack hus hread hu
      refine ⟨iff_of_true ⟨e, _, hrun⟩ ⟨settings, u.1, rfl, hlive, hu⟩, fun e' s' hfail => ?_⟩
      obtain ⟨hsame, rfl⟩ := Prod.mk.inj (hrun.symm.trans hfail)
      rw [← Except.error.inj hsame]
      exact ⟨he, settings, u.1, new, memory, rfl, hlive, hu, hbelow, hseeds, rfl⟩

/-- of three users the second has a row that cannot be read: the first one's new row stays, and the
third does not get one -/
theorem first_user_started_before_unreadable :
    let bad : Row := ⟨4, 2, 7, 0, latestSecond + 1, 0, 0, 1⟩
    let s : Session := .start
      { Store.ofSnapshot { Snapshot.empty with completions := [bad] } true with
        settings := [⟨7, .on .any⟩], windows := [.active 3 7, .active 1 7, .active 2 7] }
      ⟨3000, 0, by decide, by decide⟩
    ∃ e s', (Action.startUsers 7).run s = (.error e, s') ∧ Refusal.unreadable.Tells e ∧
      s'.table.rows = [bad, ⟨5, 1, 7, 3000, 0, 0, 0, 1⟩] ∧ s'.published = [] := by
  intro bad s
  obtain ⟨hfails, hkeeps⟩ := failed_start_keeps_rows_before (s := s) rfl 7
  have hlive : s.store.LiveIn s.now ⟨2, 7⟩ :=
    ⟨.active 2 7, by decide, rfl, rfl, rfl, rfl, fun t h => by cases h⟩
  obtain ⟨e, s', hrun⟩ := hfails.2 ⟨.on .any, 2, by decide, hlive, by decide⟩
  obtain ⟨he, _, _, new, memory, -, -, -, -, -, rfl⟩ := hkeeps e s' hrun
  have hrows : ((Action.startUsers 7).run s).2.table.rows = [bad, ⟨5, 1, 7, 3000, 0, 0, 0, 1⟩] := by
    decide +kernel
  rw [hrun] at hrows
  exact ⟨e, _, hrun, he, hrows, rfl⟩

/-- A start that fails does not leave the table as it was. -/
theorem failed_start_leaves_row_behind :
    ¬∀ (s : Session) (course : Int) (e : ServiceError) (s' : Session), s.Calm →
      (Action.startUsers course).run s = (.error e, s') →
      s'.table = s.table ∧ s'.published = s.published := by
  intro hclaim
  let bad : Row := ⟨1, 2, 1, 8210266876800, 0, 0, 0, 1⟩
  let s : Session := .start
    { Store.ofSnapshot { Snapshot.empty with completions := [bad] } true with
      settings := [⟨1, .on .all⟩], windows := [.active 1 1, .active 2 1] }
    ⟨10000, 0, by decide, by decide⟩
  have hfails : ((Action.startUsers 1).run s).1 =
      .error (.repository "timestamp out of range: 8210266876800") := by
    decide +kernel
  obtain ⟨hsame, -⟩ := hclaim s 1 _ ((Action.startUsers 1).run s).2 rfl (Prod.ext hfails rfl)
  have hlength : ((Action.startUsers 1).run s).2.table.rows.length = 2 := by decide +kernel
  rw [hsame] at hlength
  exact absurd hlength (by decide)

end CourseCompletion
