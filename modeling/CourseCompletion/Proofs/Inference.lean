import CourseCompletion.Proofs.BulkStart
import CourseCompletion.Proofs.Review

/-!
# Enrolment times that are inferred

A record that begins without an enrolment time gets the earliest start of a current window, while
the start of all users takes the earliest of a live one, so it may lie ahead of the clock:

* `Earliest.getD_before`       the earliest before a moment, or that moment, is the earlier of the
                               moment and the earliest of all;
* `Session.inferred`           the time that a new record gets when it is saved, and
  `Operation.Infers`           the operations that save it without another;
* `Session.started_row`        the row that the start of all users leaves of a user without one.

So the two ways agree up to the clock (`inferred_times_agree_up_to_clock`).
-/

namespace CourseCompletion

/-! ## earliest starts -/

/-- The minimum of some instants is the earliest of them. -/
theorem earliest_minimum? (ts : List Instant) : Earliest (· ∈ ts) (Instant.minimum? ts) := by
  induction ts with
  | nil => exact fun t => List.not_mem_nil
  | cons t ts ih =>
    have hboth := (Earliest.self (some t)).earlier ih
    have hsame : Instant.minimum? (t :: ts) =
        Instant.earlier (some t) (Instant.minimum? ts) := by
      rw [Instant.minimum?]
      cases Instant.minimum? ts <;> rfl
    rw [hsame]
    refine hboth.congr fun u => ?_
    rw [List.mem_cons, Option.some.injEq, eq_comm]

/-- What is earliest before a moment, or the moment, is the earlier of that moment and what is
earliest at all. -/
theorem Earliest.getD_before {P : Instant → Prop} {now : Instant} {a b : Option Instant}
    (ha : Earliest (fun t => P t ∧ t < now) a) (hb : Earliest P b) :
    a.getD now = min now (b.getD now) := by
  rw [Instant.min_def]
  cases b with
  | none =>
    have hnone : a = none := ha.unique (b := none) fun t ht => hb t ht.1
    rw [hnone]
    exact (if_pos (Instant.le_refl now)).symm
  | some t =>
    show a.getD now = if now ≤ t then now else t
    by_cases hle : now ≤ t
    · have hnone : a = none := ha.unique (b := none) fun u hu =>
        Instant.not_le.2 hu.2 (Instant.le_trans hle (hb.2 u hu.1))
      rw [if_pos hle, hnone]
      rfl
    · have hsome : a = some t := ha.unique (b := some t)
        ⟨⟨hb.1, Instant.not_le.1 hle⟩, fun u hu => hb.2 u hu.1⟩
      rw [if_neg hle, hsome]
      rfl

/-- **The earliest start of a user's current windows, or now, is the earlier of now and what is
gathered for the user from the live ones**, whatever the windows are. -/
theorem earliestCurrentStart_of_mem_liveStarts {windows : List Window} {now : Instant} {user : Int}
    {e : Option Instant} (h : (user, e) ∈ liveStarts windows now) :
    (earliestCurrentStart (windows.filter (·.user = user)) now).getD now =
      min now (e.getD now) := by
  refine Earliest.getD_before ?_ ((gathered_liveStarts windows now).of_mem user e h).2
  refine (earliest_minimum? _).congr fun t => ?_
  have hbegun : ∀ w : Window, known? w.starts = some t → (w.starts.all (· < now) ↔ t < now) := by
    intro w hw
    rw [(known?_eq_some_iff.1 hw).1]
    simp
  simp only [List.mem_filterMap, List.mem_filter, decide_eq_true_iff, Window.isCurrent,
    Bool.and_eq_true]
  constructor
  · rintro ⟨w, ⟨⟨hw, huser⟩, hlive, hstarts⟩, ht⟩
    exact ⟨⟨w, ⟨hw, hlive⟩, huser, ht⟩, (hbegun w ht).1 hstarts⟩
  · rintro ⟨⟨w, ⟨hw, hlive⟩, huser, ht⟩, hlt⟩
    exact ⟨w, ⟨⟨hw, huser⟩, hlive, (hbegun w ht).2 hlt⟩, ht⟩

/-! ## what is inferred -/

/-- the enrolment time that a new record of a key gets when it is saved -/
def Session.inferred (s : Session) (k : Key) : Instant :=
  (earliestCurrentStart (s.store.windowsOf k) s.now).getD s.now

/-- what the start of all users gathers of a user in a course -/
theorem Session.inferred_eq {s : Session} {k : Key} {e : Option Instant}
    (h : (k.user, e) ∈ liveStarts (s.store.courseWindows k.course) s.now) :
    s.inferred k = min s.now (e.getD s.now) := by
  have hwindows : s.store.windowsOf k =
      (s.store.courseWindows k.course).filter (·.user = k.user) := by
    unfold Store.windowsOf Store.courseWindows
    rw [List.filter_filter]
    refine List.filter_congr fun w _ => ?_
    simp
  unfold inferred
  rw [hwindows]
  exact earliestCurrentStart_of_mem_liveStarts h

/-- the operations that begin the record of a key, and leave its enrolment time to be inferred -/
inductive Operation.Infers (k : Key) : Operation → Prop
  | aggregate : Infers k (aggregate k)
  | markStarted (time : Option Instant) : Infers k (markStarted k time)
  | markComplete (time : Option Instant) : Infers k (markComplete k time)

namespace Session

variable {s : Session} {k : Key} {settings : TrackingSettings}

/-- the plan writes a new record of a key, enrolled at the time that is inferred -/
def Enrols (s : Session) (k : Key) (p : Plan) : Prop :=
  ∃ w, p.written? = some w ∧ w.key = k ∧ w.enrolled = some (s.inferred k)

theorem enrols_enrolled {r : Record} (hkey : r.key = k) (hnew : r.isStored = false)
    (hr : r.enrolled = none) {p : Plan} (hp : p.written? = some (s.enrolled r)) :
    s.Enrols k p := by
  subst hkey
  refine ⟨_, hp, (grown_enrolled (K := False) False.elim r).key, ?_⟩
  have hnot : ¬r.isEnrolled = true := by simp [Record.isEnrolled, hr]
  unfold enrolled Record.markEnrolled
  rw [if_neg (by simp [hnew]), if_neg hnot]
  rfl

/-- Where a course tracks completion, a new record is begun by its evaluation. -/
theorem enrols_aggregating (htrack : s.tracking? k.course = some settings) {r : Record}
    (hkey : r.key = k) (hnew : r.isStored = false) (hr : r.enrolled = none) (p : Plan) :
    s.Enrols k (s.aggregating r p) := by
  obtain ⟨hkeeps, hstored, -, henrolled⟩ := s.reviewed_keeps settings r
  have hcourse : r.course = k.course := congrArg Key.course hkey
  exact enrols_enrolled (hkeeps.trans hkey) (hstored.trans hnew) (henrolled.trans hr)
    (aggregating_of_tracking (hcourse ▸ htrack) p).1

/-- An operation that leaves the enrolment time open loads a record, and begins it if it is new. -/
theorem enrols_of_infers (htrack : s.tracking? k.course = some settings) {op : Operation}
    (h : op.Infers k) :
    ∃ m : Commit, op.action = Reply.outcome <$> (Action.load k >>= m.run) ∧
      s.Enrols k (m.plan (.new k) s) := by
  cases h with
  | aggregate => exact ⟨.aggregate, rfl, enrols_aggregating htrack rfl rfl rfl _⟩
  | markStarted time =>
    exact ⟨.start time, rfl, enrols_aggregating htrack ((Record.new k).key_markStarted _) rfl rfl _⟩
  | markComplete time =>
    exact ⟨.complete time, rfl,
      enrols_enrolled (r := (Record.new k).markComplete _) rfl rfl rfl rfl⟩

end Session

/-- The operation writes the row of a new record, enrolled at the time that is inferred. -/
theorem Operation.Infers.run {s : Session} (hs : s.Calm) {k : Key} {settings : TrackingSettings}
    (htrack : s.tracking? k.course = some settings) (hnone : s.table.row? k = none)
    {op : Operation} (h : op.Infers k) :
    ∃ reply s' row, op.action.run s = (.ok reply, s') ∧ s'.table.row? k = some row ∧
      row.enrolled = (s.inferred k).seconds := by
  obtain ⟨m, haction, w, hw, hkey, henrolled⟩ := Session.enrols_of_infers htrack h
  have hloads : k.Loads (s.table.row? k) (.new k) := by
    rw [hnone]
    rfl
  rcases m.run_loaded hs hloads fun _ _ _ => rfl with ⟨o, memory, hp, -⟩ |
    ⟨w', saved, t, memory, hw', hsave, hrun⟩
  · rw [hp] at hw
    cases hw
  · obtain rfl := Option.some.inj (hw.symm.trans hw')
    have hsaved := CompletionTable.saved_of_save hsave
    obtain ⟨id, hid⟩ := hsaved.saved_eq
    have hrow := (hsaved.row? k).trans (if_pos hkey.symm)
    rw [Session.announcing_eq] at hrun
    have hanswer := Action.run_map Reply.outcome (Action.load k >>= m.run) s
    rw [Action.run_bind_ok (Action.load_of_loads hs hloads), hrun, ← haction] at hanswer
    refine ⟨_, _, _, hanswer, hrow, ?_⟩
    rw [hid]
    show column w.enrolled = _
    rw [henrolled]
    rfl

/-! ## what the start of all users takes -/

namespace Session

variable {s s' : Session} {k : Key} {settings : TrackingSettings}

/-- A row that the start of all users leaves of a user without one is enrolled at what was gathered
for the user, or now. -/
theorem started_row (hs : s.Calm) (htrack : s.tracking? k.course = some settings)
    (hnone : s.table.row? k = none) {answer : Except ServiceError BulkSummary}
    (hrun : (Action.startUsers k.course).run s = (answer, s')) {row : Row}
    (hrow : s'.table.row? k = some row) :
    ∃ e, (k.user, e) ∈ liveStarts (s.store.courseWindows k.course) s.now ∧
      row.enrolled = (e.getD s.now).seconds := by
  let all := liveStarts (s.store.courseWindows k.course) s.now
  have hbegun : ∀ us, (∀ u ∈ us, u ∈ all) → (s.table.append
      (s.table.newcomers k.course settings.startOnEnrol s.now us)).row? k = some row →
        ∃ e, (k.user, e) ∈ all ∧ row.enrolled = (e.getD s.now).seconds := by
    intro us hus hfound
    rw [CompletionTable.row?_append, hnone, Option.none_or] at hfound
    obtain ⟨u, hu, -, id, rfl⟩ := of_mem_newcomers (Keyed.mem_of_get? hfound)
    have huser : u.1 = k.user := congrArg Key.user (Keyed.key_of_get? hfound)
    exact ⟨u.2, huser ▸ hus u hu, rfl⟩
  rcases s.table.unreadable_cases k.course all with hread | ⟨before, u, rest, hus, hread, hu⟩
  · obtain ⟨-, rfl⟩ := Prod.mk.inj ((Action.startUsers_run hs htrack rfl hread).symm.trans hrun)
    exact hbegun all (fun _ h => h) hrow
  · obtain ⟨e, hfails, -⟩ := Action.startUsers_error hs htrack hus hread hu
    obtain ⟨-, rfl⟩ := Prod.mk.inj (hfails.symm.trans hrun)
    exact hbegun before (fun v hv => hus ▸ List.mem_append_left _ hv) hrow

/-- Where every live user's row can be read, the start of all users leaves a row of each. -/
theorem exists_started_row (hs : s.Calm) (htrack : s.tracking? k.course = some settings)
    (hlive : s.store.LiveIn s.now k)
    (hread : ∀ user row, s.store.LiveIn s.now ⟨user, k.course⟩ →
      s.table.row? ⟨user, k.course⟩ = some row → row.Readable) :
    ∃ summary s' row, (Action.startUsers k.course).run s = (.ok summary, s') ∧
      s'.table.row? k = some row := by
  obtain ⟨e, he⟩ := exists_mem_liveStarts.2 hlive
  have hreadable : ∀ u ∈ liveStarts (s.store.courseWindows k.course) s.now,
      s.table.unreadable ⟨u.1, k.course⟩ = false := fun u hu =>
    CompletionTable.unreadable_eq_false_iff.2 fun row =>
      hread u.1 row (exists_mem_liveStarts.1 ⟨u.2, hu⟩)
  obtain ⟨row, hrow, -⟩ := exists_row_of_participant he fun row => hread k.user row hlive
  exact ⟨_, _, row, Action.startUsers_run hs htrack rfl hreadable, hrow⟩

end Session

/-- **The two ways to infer an enrolment time agree up to the clock.**  In a course that tracks
completion, let a live user have no row.  An operation that begins one without an enrolment time
enrols the user at the earlier of now and the time that the start of all users takes in its place,
to the instant and so to the second.  Where the two rows differ, the user has a live window that
starts at a time that counts, and all of these lie ahead.  The start of all users does leave a row
of the user where the rows of all live users can be read. -/
theorem inferred_times_agree_up_to_clock {s : Session} (hs : s.Calm) {k : Key}
    {settings : TrackingSettings} (htrack : s.tracking? k.course = some settings)
    (hlive : s.store.LiveIn s.now k) (hnone : s.table.row? k = none) {op : Operation}
    (hop : op.Infers k) :
    ∃ reply s' row e, op.action.run s = (.ok reply, s') ∧ s'.table.row? k = some row ∧
      row.enrolled = ((earliestCurrentStart (s.store.windowsOf k) s.now).getD s.now).seconds ∧
      (k.user, e) ∈ liveStarts (s.store.courseWindows k.course) s.now ∧
      (earliestCurrentStart (s.store.windowsOf k) s.now).getD s.now = min s.now (e.getD s.now) ∧
      (∀ answer s'' begun, (Action.startUsers k.course).run s = (answer, s'') →
        s''.table.row? k = some begun →
          row.enrolled = min s.now.seconds begun.enrolled ∧
          (row.enrolled ≠ begun.enrolled → (∃ t, s.store.StartIn s.now k t) ∧
            ∀ t, s.store.StartIn s.now k t → s.now < t)) ∧
      ((∀ user row, s.store.LiveIn s.now ⟨user, k.course⟩ →
          s.table.row? ⟨user, k.course⟩ = some row → row.Readable) →
        ∃ summary s'' begun, (Action.startUsers k.course).run s = (.ok summary, s'') ∧
          s''.table.row? k = some begun) := by
  obtain ⟨e, he⟩ := exists_mem_liveStarts.2 hlive
  have hinferred := Session.inferred_eq he
  have hearliest := (mem_liveStarts.1 he).2
  obtain ⟨reply, s', row, hrun, hrow, henrolled⟩ := hop.run hs htrack hnone
  refine ⟨reply, s', row, e, hrun, hrow, henrolled, he, hinferred, ?_,
    Session.exists_started_row hs htrack hlive⟩
  intro answer s'' begun hstart hbegun
  obtain ⟨e', he', hsecond⟩ := Session.started_row hs htrack hnone hstart hbegun
  obtain rfl : e = e' := hearliest.unique (mem_liveStarts.1 he').2
  rw [henrolled, hinferred, hsecond]
  refine ⟨Instant.seconds_min _ _, fun hne => ?_⟩
  -- the rows can differ only where the earliest start of all lies ahead
  cases e with
  | none =>
    rw [Option.getD_none, Instant.min_def, if_pos (Instant.le_refl _)] at hne
    exact absurd rfl hne
  | some t =>
    have hahead : s.now < t := by
      rw [Option.getD_some, Instant.min_def] at hne
      split at hne
      · next hle =>
        rw [Instant.le_def] at hle
        rw [Instant.lt_def]
        omega
      · exact absurd rfl hne
    refine ⟨⟨t, hearliest.1⟩, fun u hu => Instant.not_le.1 fun hle => ?_⟩
    exact Instant.not_le.2 hahead (Instant.le_trans (hearliest.2 u hu) hle)

/-- the one start that counts lies ahead: a completion enrols the user now, the start of all users
at that start -/
theorem ahead_start_inferred_as_now :
    let k : Key := ⟨3, 7⟩
    let ahead : Instant := ⟨3500, 0, by decide, by decide⟩
    let store : Store :=
      { Store.empty true with
        settings := [⟨7, .on .all⟩]
        windows := [⟨3, 7, some ahead, none, .active, true⟩, .active 3 7,
          ⟨3, 7, some .epoch, none, .active, true⟩] }
    let s : Session := .start store ⟨3000, 5, by decide, by decide⟩
    ∃ reply s' row summary s'' begun,
      (Operation.markComplete k none).action.run s = (.ok reply, s') ∧
      s'.table.row? k = some row ∧ row.enrolled = 3000 ∧
      (Action.startUsers 7).run s = (.ok summary, s'') ∧ s''.table.row? k = some begun ∧
      begun.enrolled = 3500 ∧ ∀ t, s.store.StartIn s.now k t → s.now < t := by
  intro k ahead store s
  have htrack : s.tracking? 7 = some (.on .all) := by decide
  have hlive : s.store.LiveIn s.now k :=
    ⟨.active 3 7, by decide, rfl, rfl, rfl, rfl, fun t h => by cases h⟩
  obtain ⟨reply, s', row, e, hrun, hrow, henrolled, -, -, hagree, hbegins⟩ :=
    inferred_times_agree_up_to_clock (s := s) (k := k) rfl htrack hlive rfl (.markComplete none)
  obtain ⟨summary, s'', begun, hstart, hbegun⟩ := hbegins fun user row _ h => by cases h
  have hnow : row.enrolled = 3000 := henrolled.trans (by decide)
  have hthen : begun.enrolled = 3500 := by
    have hfound : (((Action.startUsers 7).run s).2.table.row? k).map Row.enrolled = some 3500 := by
      decide +kernel
    rw [hstart, hbegun] at hfound
    exact Option.some.inj hfound
  obtain ⟨-, hahead⟩ := hagree _ _ _ hstart hbegun
  refine ⟨reply, s', row, summary, s'', begun, hrun, hrow, hnow, hstart, hbegun, hthen, ?_⟩
  exact (hahead (by rw [hnow, hthen]; decide)).2

end CourseCompletion
