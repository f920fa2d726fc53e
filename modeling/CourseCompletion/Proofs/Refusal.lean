import CourseCompletion.Proofs.Memory
import CourseCompletion.Proofs.TableCalls

/-!
# When requests fail

A request fails because it asks for a user or a course that nobody knows, or because it comes upon
a row that cannot be read: one with a time beyond the last instant.  `Request.refusal?` tells from
the store which of these it is, if any, and `Refusal.Tells` what error it is.

A request that fails has written nothing (`failures_leave_no_trace`): whatever it goes on to write,
it has read before it writes the first record.
-/

namespace CourseCompletion

/-! ## why requests fail -/

inductive Refusal where
  | unknownUser (user : Int)
  | unknownCourse (course : Int)
  | unreadable
deriving DecidableEq

namespace Refusal

/-- the error that a refusal is answered with -/
def Tells : Refusal → ServiceError → Prop
  | unknownUser user, e => e = .userNotFound (toString user)
  | unknownCourse course, e => e = .courseNotFound (toString course)
  | unreadable, e => ∃ seconds : Int, latestSecond < seconds ∧
      e = .repository s!"timestamp out of range: {seconds}"

/-- the refusal for a row that cannot be read, if there is one -/
def unreadable? (b : Bool) : Option Refusal := if b then some unreadable else none

end Refusal

namespace CompletionTable

/-- there is a row under the key, and it cannot be read -/
def unreadable (t : CompletionTable) (k : Key) : Bool := (t.row? k).any fun row => ¬row.Readable

/-- there is a row of the course that cannot be read -/
def unreadableIn (t : CompletionTable) (course : Int) : Bool :=
  t.rows.any fun row => row.course = course ∧ ¬row.Readable

end CompletionTable

namespace Store

def tracks (s : Store) (course : Int) : Bool :=
  (s.settings? course).any TrackingSettings.enabled

/-- an enrolment starts its user: both are known, and the course tracks completion and starts users
as they enrol -/
def admits (s : Store) (e : UserEnrolled) : Bool :=
  (s.course? e.course).isSome && (s.user? e.user).isSome &&
    (s.settings? e.course).any fun settings => settings.enabled && settings.startOnEnrol

/-- the courses that a report is about -/
def targets (s : Store) (user : Int) : Option Int → List Course
  | some course => (s.course? course).toList
  | none => s.coursesOf user

/-- what a report says of a course, from the record of the user in it -/
def entry (s : Store) (user : Int) (c : Course) (record : Option Record) : CourseReport where
  course := c.id
  name := c.fullName
  standing := standing record (s.criteriaFor ⟨user, c.id⟩)
  rows := reportRows (s.criteriaFor ⟨user, c.id⟩)
  completed := record.bind Record.completed

/-- a course that tracks completion, where the user takes part now, and has an unreadable row -/
def hides (s : Store) (now : Instant) (user : Int) (c : Course) : Bool :=
  (s.windowsOf ⟨user, c.id⟩).any (·.isLive now) &&
    (s.tracks c.id && s.completions.unreadable ⟨user, c.id⟩)

end Store

/-- the refusal for a user or a course that is asked for and not known, the user first -/
def Refusal.unknown? (s : Store) (user : Int) (course : Option Int) : Option Refusal :=
  if (s.user? user).isNone then some (.unknownUser user)
  else (course.filter fun c => (s.course? c).isNone).map .unknownCourse

/-- why an operation fails, if it does; the start of all users of a course, which stores one record
before it reads the next, is not among those that are told of -/
def Operation.refusal? (op : Operation) (s : Store) (now : Instant) : Option Refusal :=
  match op with
  | markEnrolled k _ | markStarted k _ | markComplete k _ | aggregate k | flag k =>
    Refusal.unreadable? (s.completions.unreadable k)
  | userEnrolled e => Refusal.unreadable? (s.admits e && s.completions.unreadable e.key)
  | startUsers _ => none
  | flagCourse course => Refusal.unreadable? (s.completions.unreadableIn course)
  | runPending course => Refusal.unreadable? (s.tracks course && s.completions.unreadableIn course)
  | report user course =>
    (Refusal.unknown? s user course).or
      (Refusal.unreadable? ((s.targets user course).any (s.hides now user)))

def Request.refusal? (q : Request) (s : Store) (now : Instant) : Option Refusal :=
  match q with
  | operation op => op.refusal? s now
  | record k => Refusal.unreadable? (s.completions.unreadable k)
  | settings _ => none

/-! ## rows that cannot be read -/

namespace CompletionTable

variable {t : CompletionTable} {row : Row} {k : Key} {e : SourceError}

theorem tells_of_recordOf (h : recordOf row = .error e) :
    Refusal.unreadable.Tells e.toServiceError := by
  unfold recordOf at h
  cases hrow : row.toRecord with
  | ok r =>
    rw [hrow] at h
    cases h
  | error e' =>
    obtain ⟨seconds, hfirst, rfl⟩ := Row.toRecord_error hrow
    rw [hrow] at h
    obtain rfl := Except.error.inj h
    exact ⟨seconds, by simpa using List.find?_some hfirst, rfl⟩

theorem recordOf_isOk_iff : (∃ r, recordOf row = .ok r) ↔ row.Readable := by
  rw [Row.readable_iff]
  exact exists_congr fun r => recordOf_eq_ok_iff

theorem unreadable_of_find (h : t.find k = .error e) :
    t.unreadable k = true ∧ Refusal.unreadable.Tells e.toServiceError := by
  unfold unreadable
  cases hrow : t.row? k with
  | none =>
    rw [find_of_none hrow] at h
    cases h
  | some row =>
    rw [find_of_some hrow] at h
    cases hr : recordOf row with
    | ok r =>
      rw [hr] at h
      cases h
    | error e' =>
      rw [hr] at h
      obtain rfl := Except.error.inj h
      have hnot : ¬row.Readable := by
        rw [← recordOf_isOk_iff, hr]
        rintro ⟨r, hr⟩
        cases hr
      exact ⟨decide_eq_true hnot, tells_of_recordOf hr⟩

theorem readable_of_find {found : Option Record} (h : t.find k = .ok found) :
    t.unreadable k = false := by
  unfold unreadable
  cases hrow : t.row? k with
  | none => rfl
  | some row =>
    rw [find_of_some hrow] at h
    cases hr : recordOf row with
    | error e =>
      rw [hr] at h
      cases h
    | ok r =>
      have hreadable : row.Readable := recordOf_isOk_iff.1 ⟨r, hr⟩
      exact decide_eq_false (not_not.2 hreadable)

theorem exists_error_of_mapM {α β ε : Type} {f : α → Except ε β} {xs : List α} {e : ε}
    (h : xs.mapM f = .error e) : ∃ x ∈ xs, f x = .error e := by
  induction xs with
  | nil => cases h
  | cons x xs ih =>
    rw [List.mapM_cons] at h
    cases hx : f x with
    | error e' =>
      rw [hx] at h
      obtain rfl := Except.error.inj h
      exact ⟨x, List.mem_cons_self, hx⟩
    | ok y =>
      cases hxs : xs.mapM f with
      | ok ys =>
        rw [hx, hxs] at h
        cases h
      | error e' =>
        rw [hx, hxs] at h
        obtain rfl := Except.error.inj h
        obtain ⟨x', hx', he⟩ := ih hxs
        exact ⟨x', List.mem_cons_of_mem x hx', he⟩

theorem unreadable_of_findByCourse {course : Int} (h : t.findByCourse course = .error e) :
    t.unreadableIn course = true ∧ Refusal.unreadable.Tells e.toServiceError := by
  obtain ⟨row, hrow, hr⟩ := exists_error_of_mapM h
  obtain ⟨hmem, hcourse⟩ := mem_courseRows.1 hrow
  refine ⟨List.any_eq_true.2 ⟨row, hmem, decide_eq_true ⟨hcourse, ?_⟩⟩, tells_of_recordOf hr⟩
  rw [← recordOf_isOk_iff, hr]
  rintro ⟨r, hr⟩
  cases hr

theorem readable_of_findByCourse {course : Int} {rs : List Record}
    (h : t.findByCourse course = .ok rs) : t.unreadableIn course = false := by
  have hall := findByCourse_isOk_iff.1 ⟨rs, h⟩
  refine List.any_eq_false.2 fun row hrow hbad => ?_
  obtain ⟨hcourse, hnot⟩ := of_decide_eq_true hbad
  exact hnot (hall row hrow hcourse)

end CompletionTable

/-! ## how actions end -/

namespace Action

variable {α β : Type} {s : Session}

/-- the action has an answer if there is no refusal, and else fails with the error that tells of it
and leaves all but the memory of settings as it was -/
def Ends (x : Action α) (s : Session) : Option Refusal → Prop
  | none => ∃ a s', x.run s = (.ok a, s')
  | some why => ∃ e memory, x.run s = (.error e, s.withMemory memory) ∧ why.Tells e

namespace Ends

variable {x : Action α} {why : Option Refusal}

theorem map (f : α → β) (h : Ends x s why) : Ends (f <$> x) s why := by
  cases why with
  | none =>
    obtain ⟨a, s', hrun⟩ := h
    exact ⟨f a, s', by rw [run_map, hrun]; rfl⟩
  | some why =>
    obtain ⟨e, memory, hrun, he⟩ := h
    exact ⟨e, memory, by rw [run_map, hrun]; rfl, he⟩

/-- an action that does what another one does, but for the memory -/
theorem of_run_eq {y : Action α} {memory : List CourseSettings}
    (hx : x.run s = y.run (s.withMemory memory)) (h : Ends y (s.withMemory memory) why) :
    Ends x s why := by
  cases why with
  | none =>
    obtain ⟨a, s', hrun⟩ := h
    exact ⟨a, s', hx.trans hrun⟩
  | some why =>
    obtain ⟨e, memory', hrun, he⟩ := h
    exact ⟨e, memory', hx.trans hrun, he⟩

/-- an action after one that only reads -/
theorem bind {f : α → Action β} {a : α} {memory : List CourseSettings}
    (hx : x.run s = (.ok a, s.withMemory memory)) (h : Ends (f a) (s.withMemory memory) why) :
    Ends (x >>= f) s why :=
  of_run_eq (run_bind_ok hx f) h

/-- an action that fails as its first part does -/
theorem bind_error {f : α → Action β} {e : ServiceError} {memory : List CourseSettings}
    {why : Refusal} (hx : x.run s = (.error e, s.withMemory memory)) (he : why.Tells e) :
    Ends (x >>= f) s (some why) :=
  ⟨e, memory, run_bind_error hx f, he⟩

/-- an action after one that leaves the session as it was -/
theorem read {f : α → Action β} {a : α} (hx : x.run s = (.ok a, s)) (h : Ends (f a) s why) :
    Ends (x >>= f) s why := by
  have hx' : x.run s = (.ok a, s.withMemory s.remembered) := hx
  exact bind hx' h

/-- an action that fails as its first part does, which leaves the session as it was -/
theorem read_error {f : α → Action β} {e : ServiceError} {why : Refusal}
    (hx : x.run s = (.error e, s)) (he : why.Tells e) : Ends (x >>= f) s (some why) := by
  have hx' : x.run s = (.error e, s.withMemory s.remembered) := hx
  exact bind_error hx' he

theorem ok {a : α} {s' : Session} (hrun : x.run s = (.ok a, s')) : Ends x s none := ⟨a, s', hrun⟩

end Ends

/-! ### one record -/

/-- A record is read, and what follows has an answer. -/
theorem ends_get? (hs : s.Calm) (k : Key) {f : Option Record → Action β}
    (hf : ∀ found, s.table.find k = .ok found → Ends (f found) s none) :
    Ends (get? k >>= f) s (Refusal.unreadable? (s.table.unreadable k)) := by
  have hget := get?_run hs k
  cases hfind : s.table.find k with
  | error e =>
    rw [hfind] at hget
    obtain ⟨hbad, he⟩ := CompletionTable.unreadable_of_find hfind
    rw [hbad]
    exact .read_error hget he
  | ok found =>
    rw [hfind] at hget
    rw [CompletionTable.readable_of_find hfind]
    exact .read hget (hf found hfind)

theorem ends_load (hs : s.Calm) (k : Key) {m : Commit} (hm : s.now.IsKnown → m.Timely)
    (hfirst : ∀ e b, m ≠ .first e b) :
    Ends (load k >>= m.run) s (Refusal.unreadable? (s.table.unreadable k)) := by
  have hload : load k >>= m.run = get? k >>= fun found => m.run (found.getD (.new k)) := by
    unfold load
    simp only [bind_assoc, pure_bind]
  rw [hload]
  refine ends_get? hs k fun found hfind => ?_
  have hloads := CompletionTable.loads_of_find hfind
  obtain ⟨o, s', new, hrun, -, -⟩ := Commit.works hm hs hloads fun e b h => absurd h (hfirst e b)
  exact .ok hrun

theorem ends_flag (hs : s.Calm) (k : Key) :
    Ends (flag k) s (Refusal.unreadable? (s.table.unreadable k)) := by
  rw [flag_eq]
  refine ends_get? hs k fun found hfind => ?_
  cases found with
  | none => exact .ok rfl
  | some r =>
    have hloads : k.Loads (s.table.row? k) r := CompletionTable.loads_of_find hfind
    obtain ⟨o, s', new, hrun, -, -⟩ := Commit.works (m := .flag s.now) (fun h => h) hs hloads
      fun _ _ h => by cases h
    refine .read (now_run s) ?_
    exact .ok (run_bind_ok hrun _)

/-! ### enrolments -/

theorem ignored?_eq_none_iff (hf : s.Faithful) (e : UserEnrolled) :
    s.ignored? e = none ↔ s.store.admits e = true := by
  unfold Session.ignored? Store.admits Session.tracking?
  rw [hf.settings?_eq]
  cases s.store.course? e.course with
  | none => simp
  | some course =>
    cases s.store.user? e.user with
    | none => simp
    | some user =>
      cases s.store.settings? e.course with
      | none => simp
      | some settings =>
        cases henabled : settings.enabled <;> cases hstart : settings.startOnEnrol <;>
          simp [Option.filter, henabled, hstart]

theorem ends_userEnrolled (hs : s.Calm) (hf : s.Faithful) (e : UserEnrolled) :
    Ends (userEnrolled e) s
      (Refusal.unreadable? (s.store.admits e && s.table.unreadable e.key)) := by
  have hrun := userEnrolled_eq hs e
  cases hignored : s.ignored? e with
  | some reason =>
    have hadmits : s.store.admits e = false := by
      rw [← Bool.not_eq_true, ← ignored?_eq_none_iff hf, hignored]
      simp
    rw [hignored] at hrun
    obtain ⟨memory, hrun⟩ := hrun
    rw [hadmits]
    exact .ok hrun
  | none =>
    rw [hignored] at hrun
    rw [(ignored?_eq_none_iff hf e).1 hignored, Bool.true_and]
    have hends := (ends_load (s := s.lookedUp e.course) hs e.key
      (m := .join ((known? e.starts).getD s.now)) (isKnown_timeOrNow e.starts)
      fun _ _ h => by cases h).map EnrolmentOutcome.started
    exact .of_run_eq hrun hends

/-! ### courses -/

theorem tracking?_isSome (hf : s.Faithful) (course : Int) :
    (s.tracking? course).isSome = s.store.tracks course := by
  unfold Session.tracking? Store.tracks
  rw [hf.settings?_eq]
  cases s.store.settings? course with
  | none => rfl
  | some settings =>
    cases henabled : settings.enabled <;> simp [Option.filter, henabled]

/-- The records of a course are read, and what follows has an answer. -/
theorem ends_findByCourse (hs : s.Calm) (course : Int) {f : List Record → Action β}
    (hf : ∀ rs, s.table.findByCourse course = .ok rs → Ends (f rs) s none) :
    Ends (Fetch.toAction (Fetch.findByCourse course) >>= f) s
      (Refusal.unreadable? (s.table.unreadableIn course)) := by
  cases hfind : s.table.findByCourse course with
  | error e =>
    obtain ⟨hbad, he⟩ := CompletionTable.unreadable_of_findByCourse hfind
    rw [hbad]
    exact .read_error (findByCourse_error hs hfind) he
  | ok rs =>
    rw [CompletionTable.readable_of_findByCourse hfind]
    exact .read (findByCourse_ok hs hfind) (hf rs hfind)

theorem ends_flagCourse (hs : s.Calm) (hv : s.table.Valid) (course : Int) :
    Ends (flagCourse course) s (Refusal.unreadable? (s.table.unreadableIn course)) := by
  unfold flagCourse
  refine .read (now_run s) ?_
  refine ends_findByCourse hs course fun rs hfind => ?_
  have hfresh : Fresh (rs.filter (!·.isComplete)) s.table :=
    (Fresh.of_findByCourse hv hfind).sublist List.filter_sublist
  obtain ⟨s', new, hrun, -⟩ := flagEach_works _ (fun hnow => hnow) hs hfresh
  exact .ok (run_bind_ok hrun _)

theorem ends_runPending (hs : s.Calm) (hf : s.Faithful) (hv : s.table.Valid) (course : Int) :
    Ends (runPending course) s
      (Refusal.unreadable? (s.store.tracks course && s.table.unreadableIn course)) := by
  rw [← tracking?_isSome hf]
  unfold runPending
  refine .bind (tracking?_run hs course) ?_
  cases s.tracking? course with
  | none => exact .ok rfl
  | some settings =>
    rw [Option.isSome_some, Bool.true_and]
    have hs' : (s.lookedUp course).Calm := hs
    refine .read (now_run _) ?_
    refine ends_findByCourse hs' course fun rs hfind => ?_
    have hfresh : Fresh (rs.filter (·.isDue s.now)) s.table :=
      (Fresh.of_findByCourse hv hfind).sublist List.filter_sublist
    obtain ⟨summary, s', new, hrun, -⟩ :=
      sweepEach_works (s := s.lookedUp course) _ hs' hfresh ⟨0, 0⟩
    exact .ok hrun

/-! ### reports -/

theorem takesPart_run (hs : s.Calm) (k : Key) :
    (takesPart k).run s = (.ok ((s.store.windowsOf k).any (·.isLive s.now)), s) := by
  unfold takesPart
  rw [run_bind_ok (now_run s)]
  exact run_bind_ok (ask_run hs .userWindows _) _

/-- One course of a report: its record is read only if it tracks completion. -/
theorem courseReport?_eq (hs : s.Calm) (hf : s.Faithful) (user : Int) (course : Course) :
    (courseReport? user course).run s =
      (if s.store.tracks course.id then
          ((s.table.find ⟨user, course.id⟩).map fun record =>
            some (s.store.entry user course record)).mapError SourceError.toServiceError
        else .ok none,
        s.lookedUp course.id) := by
  have htracks := tracking?_isSome hf course.id
  have hs' : (s.lookedUp course.id).Calm := hs
  unfold courseReport?
  rw [run_bind_ok (tracking?_run hs course.id), ← htracks]
  cases s.tracking? course.id with
  | none => rfl
  | some settings =>
    have hget : (get? ⟨user, course.id⟩).run (s.lookedUp course.id) =
        ((s.table.find ⟨user, course.id⟩).mapError SourceError.toServiceError,
          s.lookedUp course.id) := get?_run hs' _
    cases hfind : s.table.find ⟨user, course.id⟩ with
    | error e =>
      rw [hfind] at hget
      exact run_bind_error hget _
    | ok found =>
      rw [hfind] at hget
      exact (run_bind_ok hget _).trans (run_bind_ok (ask_run hs' .criteria _) _)

/-- It fails exactly if it comes upon a record that cannot be read. -/
theorem courseReport?_run (hs : s.Calm) (hf : s.Faithful) (user : Int) (course : Course) :
    let hidden := s.store.tracks course.id && s.table.unreadable ⟨user, course.id⟩
    ∃ answer, (courseReport? user course).run s = (answer, s.lookedUp course.id) ∧
      match answer with
      | .ok _ => hidden = false
      | .error e => hidden = true ∧ Refusal.unreadable.Tells e := by
  intro hidden
  refine ⟨_, courseReport?_eq hs hf user course, ?_⟩
  unfold hidden
  cases s.store.tracks course.id with
  | false => rfl
  | true =>
    rw [Bool.true_and]
    cases hfind : s.table.find ⟨user, course.id⟩ with
    | error e => exact CompletionTable.unreadable_of_find hfind
    | ok found => exact CompletionTable.readable_of_find hfind

theorem ends_fileEach (hs : s.Calm) (hf : s.Faithful) (user : Int) (courses : List Course)
    (report : UserReport) :
    Ends (fileEach user courses report) s
      (Refusal.unreadable? (courses.any (s.store.hides s.now user))) := by
  induction courses generalizing s report with
  | nil => exact .ok rfl
  | cons course courses ih =>
    rw [List.any_cons]
    refine .read (takesPart_run hs ⟨user, course.id⟩) ?_
    unfold Store.hides
    cases (s.store.windowsOf ⟨user, course.id⟩).any (·.isLive s.now) with
    | false => exact ih hs hf report
    | true =>
      have hs' : (s.lookedUp course.id).Calm := hs
      have hrest := ih hs' (hf.lookedUp course.id)
      obtain ⟨answer, hrun, hhidden⟩ := courseReport?_run hs hf user course
      rw [Bool.true_and]
      cases answer with
      | error e =>
        obtain ⟨hhidden, he⟩ := hhidden
        have hhidden' : (s.store.tracks course.id &&
            s.store.completions.unreadable ⟨user, course.id⟩) = true := hhidden
        rw [hhidden', Bool.true_or]
        exact .bind_error hrun he
      | ok entry =>
        have hhidden' : (s.store.tracks course.id &&
            s.store.completions.unreadable ⟨user, course.id⟩) = false := hhidden
        rw [hhidden', Bool.false_or]
        refine .bind hrun ?_
        cases entry with
        | none => exact hrest report
        | some entry => exact hrest _

theorem reportedCourses_run (hs : s.Calm) (user : Int) (course : Option Int)
    (hcourse : ∀ c, course = some c → (s.store.course? c).isSome = true) :
    (reportedCourses user course).run s = (.ok (s.store.targets user course), s) := by
  cases course with
  | none => exact ask_run hs .userCourses (·.coursesOf user)
  | some c =>
    obtain ⟨found, hfound⟩ := Option.isSome_iff_exists.1 (hcourse c rfl)
    have hask : (Fetch.toAction (ask .findCourse (·.course? c))).run s =
        (.ok (s.store.course? c), s) := ask_run hs .findCourse _
    have htargets : s.store.targets user (some c) = [found] := congrArg Option.toList hfound
    rw [hfound] at hask
    rw [htargets]
    exact run_bind_ok hask _

theorem ends_report (hs : s.Calm) (hf : s.Faithful) (user : Int) (course : Option Int) :
    Ends (Action.report user course) s
      ((Refusal.unknown? s.store user course).or
        (Refusal.unreadable? ((s.store.targets user course).any (s.store.hides s.now user)))) := by
  unfold Action.report Refusal.unknown?
  have huser : (Fetch.toAction (ask .findUser (·.user? user))).run s =
      (.ok (s.store.user? user), s) := ask_run hs .findUser _
  cases hfound : s.store.user? user with
  | none =>
    rw [hfound] at huser
    exact ⟨_, s.remembered, run_bind_ok huser _, rfl⟩
  | some u =>
    rw [hfound] at huser
    refine .read huser ?_
    cases course with
    | none =>
      have hcourses := reportedCourses_run hs user none fun c h => by cases h
      exact .read hcourses (ends_fileEach hs hf _ _ _)
    | some c =>
      have hcourse : (Fetch.toAction (ask .findCourse (·.course? c))).run s =
          (.ok (s.store.course? c), s) := ask_run hs .findCourse _
      cases hfound' : s.store.course? c with
      | none =>
        rw [hfound'] at hcourse
        have hcourses : (reportedCourses user (some c)).run s =
            (.error (.courseNotFound (toString c)), s) := run_bind_ok hcourse _
        simp only [Option.filter_some, hfound']
        exact .read_error hcourses rfl
      | some found =>
        have hcourses := reportedCourses_run hs user (some c) fun c' h => by
          rw [← Option.some.inj h, hfound']
          rfl
        simp only [Option.filter_some, hfound']
        exact .read hcourses (ends_fileEach hs hf _ _ _)

end Action

/-! ## requests -/

theorem Request.ends {s : Session} (hs : s.Calm) (hf : s.Faithful) (hv : s.table.Valid)
    {q : Request} (hq : ∀ course, q ≠ .operation (.startUsers course)) :
    q.action.Ends s (q.refusal? s.store s.now) := by
  cases q with
  | record k =>
    refine .map _ ?_
    have hget := Action.ends_get? (f := pure) hs k fun found _ => .ok rfl
    rw [bind_pure] at hget
    exact hget
  | settings course => exact .map _ (.ok (Action.settings?_run hs course))
  | operation op =>
    refine .map _ ?_
    cases op with
    | markEnrolled k time =>
      exact .map _ (Action.ends_load hs k (m := .enrol time) (fun _ => trivial)
        fun _ _ h => by cases h)
    | markStarted k time =>
      exact .map _ (Action.ends_load hs k (m := .start time) (fun _ => trivial)
        fun _ _ h => by cases h)
    | markComplete k time =>
      exact .map _ (Action.ends_load hs k (m := .complete time) (fun _ => trivial)
        fun _ _ h => by cases h)
    | aggregate k =>
      exact .map _ (Action.ends_load hs k (m := .aggregate) (fun _ => trivial)
        fun _ _ h => by cases h)
    | flag k => exact .map _ (Action.ends_flag hs k)
    | userEnrolled e => exact .map _ (Action.ends_userEnrolled hs hf e)
    | startUsers course => exact absurd rfl (hq course)
    | flagCourse course => exact .map _ (Action.ends_flagCourse hs hv course)
    | runPending course => exact .map _ (Action.ends_runPending hs hf hv course)
    | report user course => exact .map _ (Action.ends_report hs hf user course)

/-- **When requests fail, and that they leave no trace.**  Without a refusal, a request has an
answer; with one, it fails with the error that tells of it, and leaves every table and all that was
published as they were. -/
theorem failures_leave_no_trace {s : Session} (hs : s.Calm) (hf : s.Faithful)
    (hv : s.table.Valid) {q : Request} (hq : ∀ course, q ≠ .operation (.startUsers course)) :
    (q.refusal? s.store s.now = none → ∃ r, (q.action.run s).1 = .ok r) ∧
    ∀ why, q.refusal? s.store s.now = some why → ∃ e, (q.action.run s).1 = .error e ∧
      why.Tells e ∧ (q.action.run s).2.store = s.store ∧
      (q.action.run s).2.published = s.published := by
  have hends := Request.ends hs hf hv hq
  constructor
  · intro hnone
    rw [hnone] at hends
    obtain ⟨r, s', hrun⟩ := hends
    exact ⟨r, by rw [hrun]⟩
  · intro why hwhy
    rw [hwhy] at hends
    obtain ⟨e, memory, hrun, he⟩ := hends
    rw [hrun]
    exact ⟨e, rfl, he, rfl, rfl⟩

/-- a row that cannot be read: the other row of its course is not flagged either -/
theorem no_record_flagged_beside_unreadable :
    let fine : Row := ⟨1, 3, 7, 100, 0, 0, 0, 1⟩
    let late : Row := ⟨2, 4, 7, 100, 8210266876800, 0, 0, 1⟩
    let snapshot : Snapshot := { Snapshot.empty with completions := [fine, late] }
    let s : Session := .start (.ofSnapshot snapshot true) ⟨900, 0, by decide, by decide⟩
    let q : Request := .operation (.flagCourse 7)
    (∃ reason, (q.action.run s).1 = .error (.repository reason)) ∧
    (q.action.run s).2.table.row? ⟨3, 7⟩ = some fine := by
  intro fine late snapshot s q
  have hq : ∀ course, Request.operation (.flagCourse 7) ≠ .operation (.startUsers course) :=
    fun course h => by cases h
  have hv : s.table.Valid := CompletionTable.valid_ofRows _ _
  obtain ⟨e, he, ⟨seconds, -, rfl⟩, hstore, -⟩ :=
    (failures_leave_no_trace (s := s) rfl (.of_nil rfl) hv hq).2 .unreadable (by decide)
  refine ⟨⟨_, he⟩, ?_⟩
  show (q.action.run s).2.store.completions.row? ⟨3, 7⟩ = some fine
  rw [hstore]
  decide

end CourseCompletion
