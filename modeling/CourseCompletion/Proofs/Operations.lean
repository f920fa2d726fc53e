import CourseCompletion.Operation.Report
import CourseCompletion.Proofs.Loops

/-!
# What operations do

An `Operation` is a call of one of the services, and a `Reply` is what it answers.  On a calm
session every operation does one commit at most for every key, out of those that it `Allows`, and
answers how many completions it published (`Operation.performs`).

A `Request` is an operation, or a question for a record or for settings.
-/

namespace CourseCompletion

/-! ## operations -/

/-- A call of a service. -/
inductive Operation where
  | markEnrolled (k : Key) (time : Option Instant)
  | markStarted (k : Key) (time : Option Instant)
  | markComplete (k : Key) (time : Option Instant)
  | aggregate (k : Key)
  | flag (k : Key)
  | userEnrolled (e : UserEnrolled)
  | startUsers (course : Int)
  | flagCourse (course : Int)
  | runPending (course : Int)
  | report (user : Int) (course : Option Int)
deriving DecidableEq

inductive Reply where
  | outcome (o : Outcome)
  | record (r : Option Record)
  | enrolment (o : EnrolmentOutcome)
  | begun (s : BulkSummary)
  | flagged (n : Nat)
  | swept (s : SweepSummary)
  | report (r : UserReport)
deriving DecidableEq

/-- the completions that an answer tells of -/
def Reply.completions : Reply → Nat
  | outcome o | enrolment (.started o) => o.justCompleted.toNat
  | swept s => s.completed
  | _ => 0

namespace Operation

def action : Operation → Action Reply
  | markEnrolled k time => Reply.outcome <$> Action.markEnrolled k time
  | markStarted k time => Reply.outcome <$> Action.markStarted k time
  | markComplete k time => Reply.outcome <$> Action.markComplete k time
  | aggregate k => Reply.outcome <$> Action.aggregate k
  | flag k => Reply.record <$> Action.flag k
  | userEnrolled e => Reply.enrolment <$> Action.userEnrolled e
  | startUsers course => Reply.begun <$> Action.startUsers course
  | flagCourse course => Reply.flagged <$> Action.flagCourse course
  | runPending course => Reply.swept <$> Action.runPending course
  | report user course => Reply.report <$> Action.report user course

/-- the commits that an operation may do, each for a key -/
def Allows (op : Operation) (s : Session) (k : Key) (m : Commit) : Prop :=
  match op with
  | markEnrolled k' time => k = k' ∧ m = .enrol time
  | markStarted k' time => k = k' ∧ m = .start time
  | markComplete k' time => k = k' ∧ m = .complete time
  | aggregate k' => k = k' ∧ m = .aggregate
  | flag k' => k = k' ∧ m = .flag s.now
  | userEnrolled e => k = e.key ∧ m = .join ((known? e.starts).getD s.now)
  | startUsers course => ∃ startOnEnrol,
      Action.begun course startOnEnrol (liveStarts (s.store.courseWindows course) s.now) k m
  | flagCourse course => k.course = course ∧ m = .flag s.now
  | runPending course => k.course = course ∧ m = .sweep ∧
      ∃ row, s.table.row? k = some row ∧ 0 < row.reaggregate ∧ row.reaggregate ≤ s.now.seconds
  | report .. => False

def Concerns (op : Operation) (k : Key) : Prop :=
  match op with
  | markEnrolled k' _ | markStarted k' _ | markComplete k' _ | aggregate k' | flag k' => k = k'
  | userEnrolled e => k = e.key
  | startUsers course | flagCourse course | runPending course => k.course = course
  | report .. => False

theorem Allows.concerns {op : Operation} {s : Session} {k : Key} {m : Commit}
    (h : op.Allows s k m) : op.Concerns k := by
  cases op with
  | report user course => exact h
  | startUsers course =>
    obtain ⟨_, hc, -⟩ := h
    exact hc
  | markEnrolled | markStarted | markComplete | aggregate | flag | userEnrolled | flagCourse
  | runPending => exact h.1

end Operation

/-- why an enrolment is ignored, if it is -/
def Session.ignored? (s : Session) (e : UserEnrolled) : Option IgnoreReason :=
  if (s.store.course? e.course).isNone then some .unknownCourse
  else if (s.store.user? e.user).isNone then some .unknownUser
  else match s.tracking? e.course with
    | none => some .completionDisabled
    | some settings => if settings.startOnEnrol then none else some .startOnEnrolDisabled

namespace Action

variable {α β : Type}

/-- what an operation does: allowed commits, and as many completions as its answer tells of; where
every row can be read, it fails only before it wrote anything -/
def Performs (x : Action α) (s : Session) (allowed : Key → Commit → Prop) (count : α → Nat) :
    Prop :=
  ∃ answer s' new, x.run s = (answer, s') ∧ s.Works allowed s' new ∧
    (completionsIn new).length = (answer.toOption.map count).getD 0 ∧
    (s.table.Valid → s.table.Readable → ∀ e, answer = .error e → s'.store = s.store)

namespace Performs

variable {x : Action α} {s : Session} {A B : Key → Commit → Prop} {count : α → Nat}

theorem of_works {a : α} {s' : Session} {new : List Event} (hrun : x.run s = (.ok a, s'))
    (hw : s.Works A s' new) (hn : (completionsIn new).length = count a) : Performs x s A count :=
  ⟨.ok a, s', new, hrun, hw, hn, fun _ _ _ h => by cases h⟩

/-- an operation that writes nothing -/
theorem of_memory {a : Except ServiceError α} (memory : List CourseSettings)
    (hrun : x.run s = (a, s.withMemory memory)) (hc : ∀ a, count a = 0) : Performs x s A count := by
  refine ⟨a, _, [], hrun, .memory s memory, ?_, fun _ _ _ _ => rfl⟩
  cases a with
  | error e => rfl
  | ok a => exact (hc a).symm

/-- an operation that fails before it writes anything -/
theorem of_error {e : ServiceError} (memory : List CourseSettings)
    (hrun : x.run s = (.error e, s.withMemory memory)) : Performs x s A count :=
  ⟨.error e, _, [], hrun, .memory s memory, rfl, fun _ _ _ _ => rfl⟩

theorem mono (h : Performs x s A count) (hAB : ∀ k m, A k m → B k m) : Performs x s B count := by
  obtain ⟨a, s', new, hrun, hw, hn, hc⟩ := h
  exact ⟨a, s', new, hrun, hw.mono hAB, hn, hc⟩

theorem map {f : α → β} {count : β → Nat} (h : Performs x s A (count ∘ f)) :
    Performs (f <$> x) s A count := by
  obtain ⟨a, s', new, hrun, hw, hn, hc⟩ := h
  refine ⟨a.map f, s', new, by rw [run_map, hrun], hw, hn.trans ?_, fun hv hr e he => ?_⟩
  · cases a <;> rfl
  · cases a with
    | error e' => exact hc hv hr e' rfl
    | ok a => cases he

/-- an operation that does what another one does, but for the memory -/
theorem of_run_eq {y : Action α} {memory : List CourseSettings}
    (hx : x.run s = y.run (s.withMemory memory)) (h : Performs y (s.withMemory memory) A count) :
    Performs x s A count := by
  obtain ⟨a, s', new, hrun, hw, hn, hc⟩ := h
  exact ⟨a, s', new, hx.trans hrun,
    ⟨⟨hw.now, hw.outages, hw.store, hw.locking, hw.valid, hw.settled, hw.rows⟩, hw.published,
      hw.effect⟩,
    hn, hc⟩

/-- an operation after one that writes nothing -/
theorem bind {f : α → Action β} {count : β → Nat} {a : α} {memory : List CourseSettings}
    (hx : x.run s = (.ok a, s.withMemory memory))
    (h : Performs (f a) (s.withMemory memory) A count) : Performs (x >>= f) s A count :=
  of_run_eq (run_bind_ok hx f) h

/-- an operation after one that only looks something up -/
theorem bind_still {f : α → Action β} {count : β → Nat} {a : α} (hx : x.run s = (.ok a, s))
    (h : Performs (f a) s A count) : Performs (x >>= f) s A count :=
  .bind hx h

end Performs

/-! ## operations on one record -/

section

variable {s : Session}

/-- A record is loaded, and a commit of it follows. -/
theorem performs_load {m : Commit} (hm : s.now.IsKnown → m.Timely) (hs : s.Calm) (k : Key)
    (hfirst : ∀ e b, m ≠ .first e b) :
    Performs (load k >>= m.run) s (fun k' m' => k' = k ∧ m' = m)
      fun o => o.justCompleted.toNat := by
  have hload := load_run hs k
  cases hl : s.table.load k with
  | error e =>
    rw [hl] at hload
    exact .of_error s.remembered (run_bind_error hload _)
  | ok r =>
    rw [hl] at hload
    obtain ⟨o, s', new, hrun, hw, hn⟩ := Commit.works hm hs
      (CompletionTable.load_eq_ok_iff.1 hl) fun e b h => absurd h (hfirst e b)
    exact .of_works ((run_bind_ok hload _).trans hrun) hw hn

section

variable (hs : s.Calm) (k : Key) (time : Option Instant)
include hs

theorem performs_markEnrolled :
    Performs (markEnrolled k time) s (fun k' m => k' = k ∧ m = .enrol time)
      fun o => o.justCompleted.toNat := by
  rw [markEnrolled_eq]
  exact performs_load (m := .enrol time) (fun _ => trivial) hs k fun _ _ h => by cases h

theorem performs_markStarted :
    Performs (markStarted k time) s (fun k' m => k' = k ∧ m = .start time)
      fun o => o.justCompleted.toNat := by
  rw [markStarted_eq]
  exact performs_load (m := .start time) (fun _ => trivial) hs k fun _ _ h => by cases h

theorem performs_markComplete :
    Performs (markComplete k time) s (fun k' m => k' = k ∧ m = .complete time)
      fun o => o.justCompleted.toNat := by
  rw [markComplete_eq]
  exact performs_load (m := .complete time) (fun _ => trivial) hs k fun _ _ h => by cases h

theorem performs_aggregate :
    Performs (aggregate k) s (fun k' m => k' = k ∧ m = .aggregate)
      fun o => o.justCompleted.toNat := by
  rw [aggregate_eq]
  exact performs_load (m := .aggregate) (fun _ => trivial) hs k fun _ _ h => by cases h

end

/-- A flag is put on the stored record, unless there is none or it cannot be read. -/
theorem flag_run (hs : s.Calm) (k : Key) :
    (∃ e, (flag k).run s = (.error e, s)) ∨ (flag k).run s = (.ok none, s) ∨
      ∃ r, k.Loads (s.table.row? k) r ∧
        (flag k).run s = (Outcome.record? <$> (Commit.flag s.now).run r).run s := by
  rw [flag_eq]
  have hget := get?_run hs k
  cases hf : s.table.find k with
  | error e =>
    rw [hf] at hget
    exact .inl ⟨_, run_bind_error hget _⟩
  | ok found =>
    rw [hf] at hget
    cases found with
    | none => exact .inr (.inl (run_bind_ok hget _))
    | some r =>
      obtain ⟨row, hrow, hread⟩ := CompletionTable.find_eq_some_iff.1 hf
      refine .inr (.inr ⟨r, ?_, (run_bind_ok hget _).trans (run_bind_ok (now_run s) _)⟩)
      rw [hrow]
      exact ⟨CompletionTable.key_of_row? hrow, hread⟩

theorem performs_flag (hs : s.Calm) (k : Key) :
    Performs (flag k) s (fun k' m' => k' = k ∧ m' = .flag s.now) fun _ => 0 := by
  rcases flag_run hs k with ⟨e, hrun⟩ | hrun | ⟨r, hl, hrun⟩
  · exact .of_error s.remembered hrun
  · exact .of_memory s.remembered hrun fun _ => rfl
  · obtain ⟨o, s', new, hcommit, hw, hn⟩ := Commit.works (m := .flag s.now) (fun hnow => hnow) hs hl
      fun _ _ h => by cases h
    rw [Commit.justCompleted_flag hs hcommit] at hn
    rw [run_map, hcommit] at hrun
    exact .of_works hrun hw hn

/-! ## operations on enrolments -/

/-- An enrolment is ignored if there is a reason, and else the user is enrolled and started at its
start, or now. -/
theorem userEnrolled_eq (hs : s.Calm) (e : UserEnrolled) :
    match s.ignored? e with
    | some reason =>
      ∃ memory, (userEnrolled e).run s = (.ok (.ignored reason), s.withMemory memory)
    | none =>
      (userEnrolled e).run s = (EnrolmentOutcome.started <$>
        (load e.key >>= (Commit.join ((known? e.starts).getD s.now)).run)).run
          (s.lookedUp e.course) := by
  have hask : ∀ {α : Type} (a : Access) (question : Store → α),
      (liftM (ask a question) : Action α).run s = (.ok (question s.store), s) :=
    fun a question => ask_run hs a question
  unfold userEnrolled Session.ignored?
  rw [run_bind_ok (hask .findCourse _)]
  by_cases hcourse : (s.store.course? e.course).isNone
  · rw [if_pos hcourse, if_pos hcourse]
    exact ⟨s.remembered, rfl⟩
  rw [if_neg hcourse, if_neg hcourse]
  rw [run_bind_ok (hask .findUser _)]
  by_cases huser : (s.store.user? e.user).isNone
  · rw [if_pos huser, if_pos huser]
    exact ⟨s.remembered, rfl⟩
  rw [if_neg huser, if_neg huser]
  rw [run_bind_ok (tracking?_run hs e.course)]
  cases s.tracking? e.course with
  | none => exact ⟨s.recalled e.course, rfl⟩
  | some settings =>
    cases hstart : settings.startOnEnrol with
    | false =>
      simp only [hstart]
      exact ⟨s.recalled e.course, rfl⟩
    | true =>
      simp only [hstart]
      rw [← join_eq]
      exact run_bind_ok (timeOrNow_run e.starts (s.lookedUp e.course)) _

theorem userEnrolled_run (hs : s.Calm) (e : UserEnrolled) :
    ∃ memory,
      (∃ reason, (userEnrolled e).run s = (.ok (.ignored reason), s.withMemory memory)) ∨
      (userEnrolled e).run s = (EnrolmentOutcome.started <$>
        (load e.key >>= (Commit.join ((known? e.starts).getD s.now)).run)).run
          (s.withMemory memory) := by
  have hrun := userEnrolled_eq hs e
  cases hignored : s.ignored? e with
  | some reason =>
    rw [hignored] at hrun
    obtain ⟨memory, hrun⟩ := hrun
    exact ⟨memory, .inl ⟨reason, hrun⟩⟩
  | none =>
    rw [hignored] at hrun
    exact ⟨s.recalled e.course, .inr hrun⟩

theorem performs_userEnrolled (hs : s.Calm) (e : UserEnrolled) :
    Performs (userEnrolled e) s
      (fun k m => k = e.key ∧ m = .join ((known? e.starts).getD s.now))
      fun o => (Reply.enrolment o).completions := by
  obtain ⟨memory, ⟨reason, hrun⟩ | hrun⟩ := userEnrolled_run hs e
  · exact .of_works hrun (.memory s memory) rfl
  · refine .of_run_eq hrun (.map ?_)
    exact performs_load (m := .join _) (s := s.withMemory memory) (isKnown_timeOrNow e.starts) hs
      e.key fun _ _ h => by cases h

theorem startUsers_of_not_tracking (hs : s.Calm) {course : Int}
    (htrack : s.tracking? course = none) :
    ∃ memory, (startUsers course).run s = (.ok ⟨0, 0⟩, s.withMemory memory) := by
  refine ⟨s.recalled course, ?_⟩
  unfold startUsers
  rw [run_bind_ok (tracking?_run hs course), htrack]
  rfl

theorem performs_startUsers (hs : s.Calm) (course : Int) :
    Performs (startUsers course) s
      (fun k m => ∃ startOnEnrol,
        begun course startOnEnrol (liveStarts (s.store.courseWindows course) s.now) k m)
      fun _ => 0 := by
  unfold startUsers
  refine .bind (tracking?_run hs course) ?_
  cases s.tracking? course with
  | none => exact .of_memory (s.recalled course) rfl fun _ => rfl
  | some settings =>
    have hs' : (s.lookedUp course).Calm := hs
    refine .bind_still (now_run _) (.bind_still (ask_run hs' .courseWindows _) ?_)
    obtain ⟨answer, s', new, hrun, hw, hn, hok⟩ := startEach_works course settings.startOnEnrol
      (participants_liveStarts ((s.lookedUp course).store.courseWindows course) s.now) hs' ⟨0, 0⟩
    have hw' := hw.mono (B := fun k m => ∃ startOnEnrol,
      begun course startOnEnrol (liveStarts (s.store.courseWindows course) s.now) k m)
      fun k m hb => ⟨settings.startOnEnrol, hb⟩
    cases answer with
    | error e =>
      refine ⟨_, s', new, run_bind_error hrun _, hw', by rw [hn]; rfl, fun hv hr => ?_⟩
      obtain ⟨_, hfalse⟩ := hok hv hr
      cases hfalse
    | ok summary =>
      by_cases hc : 0 < summary.created
      · refine .of_works (a := summary) ((run_bind_ok hrun _).trans ?_)
          (hw'.publish (e := .usersStarted course summary.created s.now) rfl) ?_
        · rw [if_pos hc]
          rfl
        · rw [completionsIn_append, hn]
          rfl
      · refine .of_works (a := summary) ((run_bind_ok hrun _).trans ?_) hw' (by rw [hn]; rfl)
        rw [if_neg hc]
        rfl

/-! ## operations on courses -/

theorem findByCourse_error {e : SourceError} (hs : s.Calm) {course : Int}
    (h : s.table.findByCourse course = .error e) :
    (Fetch.toAction (Fetch.findByCourse course)).run s = (.error e.toServiceError, s) := by
  rw [findByCourse_run hs, h]
  rfl

theorem findByCourse_ok {rs : List Record} (hs : s.Calm) {course : Int}
    (h : s.table.findByCourse course = .ok rs) :
    (Fetch.toAction (Fetch.findByCourse course)).run s = (.ok rs, s) := by
  rw [findByCourse_run hs, h]
  rfl

theorem performs_flagCourse (hs : s.Calm) (hv : s.table.Valid) (course : Int) :
    Performs (flagCourse course) s
      (fun k m => k.course = course ∧ m = .flag s.now ∧ (s.table.row? k).isSome)
      fun _ => 0 := by
  unfold flagCourse
  refine .bind_still (now_run s) ?_
  cases hf : s.table.findByCourse course with
  | error e => exact .of_error s.remembered (run_bind_error (findByCourse_error hs hf) _)
  | ok rs =>
    refine .bind_still (findByCourse_ok hs hf) ?_
    have hfresh : Fresh (rs.filter (!·.isComplete)) s.table :=
      (Fresh.of_findByCourse hv hf).sublist List.filter_sublist
    obtain ⟨s', new, hrun, hw, hn⟩ := flagEach_works _ (fun hnow => hnow) hs hfresh
    refine .of_works (run_bind_ok hrun _) (hw.mono ?_) (by rw [hn]; rfl)
    rintro k m ⟨⟨r, hr, rfl⟩, rfl⟩
    obtain ⟨_, hrow, _, hc⟩ :=
      CompletionTable.loads_of_findByCourse hv hf (List.mem_filter.1 hr).1
    exact ⟨hc, rfl, by rw [hrow]; rfl⟩

theorem runPending_of_not_tracking (hs : s.Calm) {course : Int}
    (htrack : s.tracking? course = none) :
    ∃ memory, (runPending course).run s = (.ok ⟨0, 0⟩, s.withMemory memory) := by
  refine ⟨s.recalled course, ?_⟩
  unfold runPending
  rw [run_bind_ok (tracking?_run hs course), htrack]
  rfl

theorem performs_runPending (hs : s.Calm) (hv : s.table.Valid) (course : Int) :
    Performs (runPending course) s
      (fun k m => k.course = course ∧ m = .sweep ∧ ∃ row, s.table.row? k = some row ∧
        0 < row.reaggregate ∧ row.reaggregate ≤ s.now.seconds)
      SweepSummary.completed := by
  unfold runPending
  refine .bind (tracking?_run hs course) ?_
  cases s.tracking? course with
  | none => exact .of_works rfl (.memory _ (s.recalled course)) rfl
  | some settings =>
    have hs' : (s.lookedUp course).Calm := hs
    refine .bind_still (now_run _) ?_
    cases hf : s.table.findByCourse course with
    | error e =>
      exact .of_error (s.recalled course) (run_bind_error (findByCourse_error hs' hf) _)
    | ok rs =>
      refine .bind_still (findByCourse_ok hs' hf) ?_
      have hfresh : Fresh (rs.filter (·.isDue s.now)) s.table :=
        (Fresh.of_findByCourse hv hf).sublist List.filter_sublist
      obtain ⟨summary, s', new, hrun, hw, hn⟩ := sweepEach_works _ hs' hfresh ⟨0, 0⟩
      refine .of_works hrun (hw.mono ?_) (by rw [hn]; exact (Nat.zero_add _).symm)
      rintro k m ⟨⟨r, hr, rfl⟩, rfl⟩
      obtain ⟨hmem, hdue⟩ := List.mem_filter.1 hr
      obtain ⟨row, hrow, hread, hc⟩ := CompletionTable.loads_of_findByCourse hv hf hmem
      exact ⟨hc, rfl, row, hrow, (hread.isDue_iff _).1 hdue⟩

/-- Where every row can be read, a sweep always has an answer. -/
theorem runPending_isOk (hs : s.Calm) (hv : s.table.Valid) (hr : s.table.Readable)
    (course : Int) : ∃ summary s', (runPending course).run s = (.ok summary, s') := by
  unfold runPending
  rw [run_bind_ok (tracking?_run hs course)]
  cases s.tracking? course with
  | none => exact ⟨_, _, rfl⟩
  | some settings =>
    have hs' : (s.lookedUp course).Calm := hs
    obtain ⟨rs, hf⟩ := hr.findByCourse course
    have hfresh : Fresh (rs.filter (·.isDue s.now)) s.table :=
      (Fresh.of_findByCourse hv hf).sublist List.filter_sublist
    obtain ⟨summary, s', -, hrun, -⟩ :=
      sweepEach_works (s := s.lookedUp course) _ hs' hfresh ⟨0, 0⟩
    refine ⟨summary, s', (run_bind_ok (now_run _) _).trans ?_⟩
    exact (run_bind_ok (findByCourse_ok (s := s.lookedUp course) hs' hf) _).trans hrun

/-! ## reports -/

/-- An operation that only reads leaves all but the memory of settings as it is. -/
def Still {α : Type} (x : Action α) (s : Session) : Prop :=
  ∃ a memory, x.run s = (a, s.withMemory memory)

theorem Still.bind {α β : Type} {x : Action α} {f : α → Action β} {s : Session} (hx : Still x s)
    (hf : ∀ a memory, x.run s = (.ok a, s.withMemory memory) → Still (f a) (s.withMemory memory)) :
    Still (x >>= f) s := by
  obtain ⟨a, memory, hrun⟩ := hx
  cases a with
  | error e => exact ⟨_, memory, run_bind_error hrun f⟩
  | ok a =>
    obtain ⟨b, memory', hrun'⟩ := hf a memory hrun
    exact ⟨b, memory', (run_bind_ok hrun f).trans hrun'⟩

theorem still_courseReport? (hs : s.Calm) (user : Int) (course : Course) :
    Still (courseReport? user course) s := by
  refine .bind ⟨_, _, tracking?_run hs course.id⟩ fun settings memory _ => ?_
  have hs' : (s.withMemory memory).Calm := hs
  cases settings with
  | none => exact ⟨_, memory, rfl⟩
  | some settings =>
    refine .bind ⟨_, memory, get?_run hs' _⟩ fun record memory' _ => ?_
    have hs'' : ((s.withMemory memory).withMemory memory').Calm := hs
    exact .bind ⟨_, memory', ask_run hs'' .criteria _⟩ fun _ m _ => ⟨_, m, rfl⟩

theorem still_fileEach (hs : s.Calm) (user : Int) (courses : List Course) (report : UserReport) :
    Still (fileEach user courses report) s := by
  induction courses generalizing s report with
  | nil => exact ⟨_, s.remembered, rfl⟩
  | cons course courses ih =>
    have htakes : Still (takesPart ⟨user, course.id⟩) s := by
      refine .bind ⟨_, s.remembered, now_run s⟩ fun _ m _ => ?_
      have hs' : (s.withMemory m).Calm := hs
      exact .bind ⟨_, m, ask_run hs' .userWindows _⟩ fun _ m _ => ⟨_, m, rfl⟩
    refine .bind htakes fun takes memory _ => ?_
    have hs' : (s.withMemory memory).Calm := hs
    cases takes with
    | false => exact ih hs' report
    | true =>
      refine .bind (still_courseReport? hs' user course) fun entry memory' _ => ?_
      have hs'' : ((s.withMemory memory).withMemory memory').Calm := hs
      cases entry with
      | none => exact ih hs'' report
      | some entry => exact ih hs'' _

theorem still_report (hs : s.Calm) (user : Int) (course : Option Int) :
    Still (Action.report user course) s := by
  unfold Action.report
  refine .bind ⟨_, s.remembered, ask_run hs .findUser _⟩ fun found memory _ => ?_
  have hs' : (s.withMemory memory).Calm := hs
  cases found with
  | none => exact ⟨_, memory, rfl⟩
  | some u =>
    have hcourses : Still (reportedCourses user course) (s.withMemory memory) := by
      cases course with
      | none => exact ⟨_, memory, ask_run hs' .userCourses (·.coursesOf user)⟩
      | some course =>
        refine .bind ⟨_, memory, ask_run hs' .findCourse _⟩ fun found memory _ => ?_
        cases found <;> exact ⟨_, memory, rfl⟩
    refine .bind hcourses fun courses memory' _ => ?_
    have hs'' : ((s.withMemory memory).withMemory memory').Calm := hs
    exact still_fileEach hs'' user courses _

theorem performs_report (hs : s.Calm) (user : Int) (course : Option Int) :
    Performs (Action.report user course) s (fun _ _ => False) fun _ => 0 := by
  obtain ⟨a, memory, hrun⟩ := still_report hs user course
  exact .of_memory memory hrun fun _ => rfl

end

end Action

namespace Operation

/-- **On a calm session an operation does allowed commits, one at most for every key**, and answers
how many completions it published. -/
theorem performs (op : Operation) {s : Session} (hs : s.Calm) (hv : s.table.Valid) :
    Action.Performs op.action s (op.Allows s) Reply.completions := by
  cases op with
  | markEnrolled k time => exact .map (Action.performs_markEnrolled hs k time)
  | markStarted k time => exact .map (Action.performs_markStarted hs k time)
  | markComplete k time => exact .map (Action.performs_markComplete hs k time)
  | aggregate k => exact .map (Action.performs_aggregate hs k)
  | flag k => exact .map (Action.performs_flag hs k)
  | userEnrolled e => exact .map (Action.performs_userEnrolled hs e)
  | startUsers course => exact .map (Action.performs_startUsers hs course)
  | flagCourse course =>
    exact .map ((Action.performs_flagCourse hs hv course).mono fun _ _ h => ⟨h.1, h.2.1⟩)
  | runPending course => exact .map (Action.performs_runPending hs hv course)
  | report user course => exact .map ((Action.performs_report hs user course).mono fun _ _ h => h)

end Operation

/-! ## requests -/

/-- What can be asked of the services: an operation, the record under a key, or the settings of a
course. -/
inductive Request where
  | operation (op : Operation)
  | record (k : Key)
  | settings (course : Int)
deriving DecidableEq

inductive Response where
  | reply (r : Reply)
  | record (r : Option Record)
  | settings (settings : Option TrackingSettings)
deriving DecidableEq

def Request.action : Request → Action Response
  | operation op => Response.reply <$> op.action
  | record k => Response.record <$> Action.get? k
  | settings course => Response.settings <$> Action.settings? course

end CourseCompletion
