import CourseCompletion.Proofs.Operations
import CourseCompletion.Proofs.Same

/-!
# What operations cannot tell apart

An action `Respects` a relation between sessions when it answers the same on both sides of it, and
leaves them related.  Every operation respects a relation that is a `Session.Congruence`: one that
the clock, the answers of the store, the settings that are looked up, the writes to the table and
the events that are published all respect.

* `Action.Respects`         closed under `pure`, `throw`, `bind`, `map` and `ite`;
* `Action.respects_save`    and the other actions that operations are made of;
* `Request.respects`        whatever is asked of the services.
-/

namespace CourseCompletion

/-! ## relations between sessions -/

/-- a relation between calm sessions that everything an operation does respects -/
structure Session.Congruence (R : Session → Session → Prop) : Prop where
  calm : ∀ {s s'}, R s s' → s.Calm
  calm' : ∀ {s s'}, R s s' → s'.Calm
  now : ∀ {s s'}, R s s' → s.now = s'.now
  answers : ∀ {s s'}, R s s' → s.store.AnswersAs s'.store
  settings? : ∀ {s s'}, R s s' → ∀ course, s.settings? course = s'.settings? course
  lookedUp : ∀ {s s'}, R s s' → ∀ course, R (s.lookedUp course) (s'.lookedUp course)
  save : ∀ {s s'}, R s s' → ∀ w,
    (∃ e, s.table.save w = .error e ∧ s'.table.save w = .error e) ∨
    ∃ saved t t', s.table.save w = .ok (saved, t) ∧ s'.table.save w = .ok (saved, t') ∧
      R (s.withTable t) (s'.withTable t')
  published : ∀ {s s'}, R s s' → ∀ e,
    R { s with published := s.published ++ [e] } { s' with published := s'.published ++ [e] }
  announced : ∀ {s s'}, R s s' → ∀ c, R (s.announced c) (s'.announced c)

namespace Session.Congruence

variable {R : Session → Session → Prop} {s s' : Session}

theorem enrolled (hR : Congruence R) (h : R s s') (r : Record) : s.enrolled r = s'.enrolled r := by
  unfold Session.enrolled
  rw [(hR.answers h).windowsOf, hR.now h]

/-- A record that is written has the same answer on both sides. -/
theorem put (hR : Congruence R) (h : R s s') (w : Record) :
    (s.put w).1 = (s'.put w).1 ∧ R (s.put w).2 (s'.put w).2 := by
  rcases hR.save h w with ⟨e, he, he'⟩ | ⟨saved, t, t', hs, hs', ht⟩
  · rw [put_of_error he, put_of_error he']
    exact ⟨rfl, h⟩
  · rw [put_of_ok hs, put_of_ok hs']
    exact ⟨rfl, ht⟩

end Session.Congruence

/-! ## actions -/

namespace Action

/-- the action answers the same on both sides of a relation, and leaves them related -/
def Respects {ε α : Type} (R : Session → Session → Prop) (x : ExceptT ε (StateM Session) α) :
    Prop :=
  ∀ ⦃s s' : Session⦄, R s s' → (x.run s).1 = (x.run s').1 ∧ R (x.run s).2 (x.run s').2

variable {R : Session → Session → Prop}

namespace Respects

variable {ε α β : Type}

theorem pure (a : α) : Respects R (Pure.pure a : ExceptT ε (StateM Session) α) :=
  fun _ _ h => ⟨rfl, h⟩

theorem throw (e : ε) : Respects R (MonadExcept.throw e : ExceptT ε (StateM Session) α) :=
  fun _ _ h => ⟨rfl, h⟩

theorem bind {x : ExceptT ε (StateM Session) α} {f : α → ExceptT ε (StateM Session) β}
    (hx : Respects R x) (hf : ∀ a, Respects R (f a)) : Respects R (x >>= f) := by
  intro s s' h
  obtain ⟨hanswer, hafter⟩ := hx h
  rw [run_bind, run_bind]
  rcases hs : x.run s with ⟨answer, s₁⟩
  rcases hs' : x.run s' with ⟨answer', s₁'⟩
  rw [hs, hs'] at hanswer hafter
  obtain rfl : answer = answer' := hanswer
  cases answer with
  | error e => exact ⟨rfl, hafter⟩
  | ok a => exact hf a hafter

theorem map {x : ExceptT ε (StateM Session) α} (f : α → β) (hx : Respects R x) :
    Respects R (f <$> x) := by
  intro s s' h
  obtain ⟨hanswer, hafter⟩ := hx h
  rw [run_map, run_map, hanswer]
  exact ⟨rfl, hafter⟩

/-- a choice that does not depend on the session -/
theorem ite {c : Prop} [Decidable c] {x y : ExceptT ε (StateM Session) α} (hx : Respects R x)
    (hy : Respects R y) : Respects R (if c then x else y) := by
  split
  · exact hx
  · exact hy

end Respects

section

variable (hR : Session.Congruence R)
include hR

/-! ### the actions that operations are made of -/

theorem respects_now : Respects R now := fun _ _ h => ⟨congrArg Except.ok (hR.now h), h⟩

theorem respects_timeOrNow (time : Option Instant) : Respects R (timeOrNow time) :=
  (respects_now hR).bind fun _ => .pure _

/-- a question that has the same answer on both sides -/
theorem respects_ask {α : Type} {question : Store → α} (a : Access)
    (hq : ∀ s s' : Store, s.AnswersAs s' → question s = question s') :
    Respects R (Fetch.toAction (ask a question)) := by
  intro s s' h
  rw [ask_run (hR.calm h), ask_run (hR.calm' h), hq _ _ (hR.answers h)]
  exact ⟨rfl, h⟩

theorem respects_get? (k : Key) : Respects R (get? k) := by
  intro s s' h
  have hfind : s.table.find k = s'.table.find k := (hR.answers h).find k
  rw [get?_run (hR.calm h), get?_run (hR.calm' h), hfind]
  exact ⟨rfl, h⟩

theorem respects_load (k : Key) : Respects R (load k) := (respects_get? hR k).bind fun _ => .pure _

theorem respects_findByCourse (course : Int) :
    Respects R (Fetch.toAction (Fetch.findByCourse course)) := by
  intro s s' h
  have hfind : s.table.findByCourse course = s'.table.findByCourse course :=
    (hR.answers h).findByCourse course
  rw [findByCourse_run (hR.calm h), findByCourse_run (hR.calm' h), hfind]
  exact ⟨rfl, h⟩

theorem respects_settings? (course : Int) : Respects R (settings? course) := by
  intro s s' h
  rw [settings?_run (hR.calm h), settings?_run (hR.calm' h), hR.settings? h]
  exact ⟨rfl, hR.lookedUp h course⟩

theorem respects_tracking? (course : Int) : Respects R (tracking? course) :=
  (respects_settings? hR course).bind fun _ => .pure _

theorem respects_save (r : Record) : Respects R (save r) := by
  intro s s' h
  rw [save_run (hR.calm h), save_run (hR.calm' h), hR.enrolled h]
  exact hR.put h _

theorem respects_publish (e : Event) : Respects R (publish e) :=
  fun _ _ h => ⟨rfl, hR.published h e⟩

theorem respects_publishCompletion (c : Completion) : Respects R (publishCompletion c) := by
  intro s s' h
  refine ⟨rfl, ?_⟩
  show R (s.announced (c.restamped s.now)) (s'.announced (c.restamped s'.now))
  rw [← hR.now h]
  exact hR.announced h _

/-! ### operations on records -/

theorem respects_completeRecord (r : Record) (time : Option Instant) :
    Respects R (completeRecord r time) := by
  refine (respects_timeOrNow hR time).bind fun t => ?_
  cases r.completion? t with
  | none => exact .pure _
  | some c =>
    refine (respects_save hR _).bind fun _ => ?_
    exact (respects_publishCompletion hR c).bind fun _ => .pure _

theorem respects_evaluateRecord (r : Record) (settings : TrackingSettings) :
    Respects R (evaluateRecord r settings) := by
  refine (respects_ask hR .criteria fun _ _ h => h.criteriaFor r.key).bind fun criteria => ?_
  refine .ite ((respects_save hR r).bind fun _ => .pure _) (.ite ?_ ?_)
  · exact respects_completeRecord hR r _
  · exact (respects_save hR r).bind fun _ => .pure _

theorem respects_saveAndEvaluate (r : Record) : Respects R (saveAndEvaluate r) := by
  refine .ite ((respects_save hR r).bind fun _ => .pure _) ?_
  refine (respects_tracking? hR r.course).bind fun settings => ?_
  cases settings with
  | none => exact (respects_save hR r).bind fun _ => .pure _
  | some settings => exact respects_evaluateRecord hR r settings

theorem respects_aggregateRecord (r : Record) : Respects R (aggregateRecord r) := by
  refine .ite ((respects_save hR r).bind fun _ => .pure _) ?_
  refine (respects_tracking? hR r.course).bind fun settings => ?_
  cases settings with
  | none => exact .pure _
  | some settings => exact respects_evaluateRecord hR r settings

theorem respects_markEnrolled (k : Key) (time : Option Instant) :
    Respects R (markEnrolled k time) :=
  (respects_load hR k).bind fun _ => (respects_timeOrNow hR time).bind fun _ =>
    respects_saveAndEvaluate hR _

theorem respects_markStarted (k : Key) (time : Option Instant) : Respects R (markStarted k time) :=
  (respects_load hR k).bind fun _ => (respects_timeOrNow hR time).bind fun _ =>
    respects_saveAndEvaluate hR _

theorem respects_markComplete (k : Key) (time : Option Instant) :
    Respects R (markComplete k time) :=
  (respects_load hR k).bind fun r => .ite (.pure _) (respects_completeRecord hR r time)

theorem respects_aggregate (k : Key) : Respects R (aggregate k) :=
  (respects_load hR k).bind fun r => respects_aggregateRecord hR r

theorem respects_flag (k : Key) : Respects R (flag k) := by
  refine (respects_get? hR k).bind fun found => ?_
  cases found with
  | none => exact .pure _
  | some r => exact (respects_now hR).bind fun _ => (respects_save hR _).bind fun _ => .pure _

/-! ### enrolments -/

theorem respects_userEnrolled (e : UserEnrolled) : Respects R (userEnrolled e) := by
  refine (respects_ask hR .findCourse fun _ _ h => h.course? e.course).bind fun _ =>
    .ite (.pure _) ?_
  refine (respects_ask hR .findUser fun _ _ h => h.user? e.user).bind fun _ => .ite (.pure _) ?_
  refine (respects_tracking? hR e.course).bind fun settings => ?_
  cases settings with
  | none => exact .pure _
  | some settings =>
    refine .ite (.pure _) ((respects_timeOrNow hR e.starts).bind fun t => ?_)
    refine (respects_load hR e.key).bind fun r => ?_
    exact (respects_aggregateRecord hR _).bind fun _ => .pure _

/-- an insert whose refusal is an answer -/
theorem respects_insert {r : Record} (hr : r.isStored = false) :
    Respects R (liftM (m := StateM Session) (n := Action) (Fetch.insert r).run) := by
  have hn : ¬r.isStored = true := by simp [hr]
  have hrun : ∀ s : Session,
      (liftM (m := StateM Session) (n := Action) (Fetch.insert r).run).run s =
        (.ok ((Fetch.insert r).run s).1, ((Fetch.insert r).run s).2) := fun _ => rfl
  intro s s' h
  rw [hrun, hrun, insert_run (hR.calm h), insert_run (hR.calm' h)]
  have hinsert : ∀ t : CompletionTable, t.save r = t.insert r := fun t => if_neg hn
  have hsave := hR.save h r
  rw [hinsert, hinsert] at hsave
  rcases hsave with ⟨e, he, he'⟩ | ⟨saved, t, t', hs, hs', ht⟩
  · rw [he, he']
    exact ⟨rfl, h⟩
  · rw [hs, hs']
    exact ⟨rfl, ht⟩

theorem respects_startUser (k : Key) (earliest : Option Instant) (startOnEnrol : Bool) :
    Respects R (startUser k earliest startOnEnrol) := by
  refine (respects_get? hR k).bind fun found => .ite (.pure _) ((respects_now hR).bind fun t => ?_)
  have hr := isStored_firstRecord k earliest startOnEnrol t
  refine (respects_insert hR hr).bind fun answer => ?_
  rcases answer with e | saved
  · cases e with
    | duplicate entity key => exact .pure _
    | invalid | ruleBroken | notFound | conflict | storage | unavailable => exact .throw _
  · exact .pure _

theorem respects_startEach (course : Int) (startOnEnrol : Bool)
    (us : List (Int × Option Instant)) (summary : BulkSummary) :
    Respects R (startEach course startOnEnrol us summary) := by
  induction us generalizing summary with
  | nil => exact .pure _
  | cons u us ih => exact (respects_startUser hR _ u.2 startOnEnrol).bind fun _ => ih _

theorem respects_startUsers (course : Int) : Respects R (startUsers course) := by
  refine (respects_tracking? hR course).bind fun settings => ?_
  cases settings with
  | none => exact .pure _
  | some settings =>
    refine (respects_now hR).bind fun t => ?_
    refine (respects_ask hR .courseWindows fun _ _ h => h.courseWindows course).bind fun _ => ?_
    refine (respects_startEach hR course _ _ _).bind fun summary => ?_
    exact .ite ((respects_publish hR _).bind fun _ => .pure _) (.pure _)

/-! ### flags and sweeps -/

theorem respects_flagEach (t : Instant) (rs : List Record) : Respects R (flagEach t rs) := by
  induction rs with
  | nil => exact .pure _
  | cons r rs ih =>
    rw [flagEach_cons]
    exact ((respects_save hR _).bind fun _ => .pure _).bind fun _ => ih

theorem respects_flagCourse (course : Int) : Respects R (flagCourse course) :=
  (respects_now hR).bind fun t => (respects_findByCourse hR course).bind fun _ =>
    (respects_flagEach hR t _).bind fun _ => .pure _

theorem respects_sweepEach (rs : List Record) (summary : SweepSummary) :
    Respects R (sweepEach rs summary) := by
  induction rs generalizing summary with
  | nil => exact .pure _
  | cons r rs ih => exact (respects_aggregateRecord hR _).bind fun _ => ih _

theorem respects_runPending (course : Int) : Respects R (runPending course) := by
  refine (respects_tracking? hR course).bind fun settings => ?_
  cases settings with
  | none => exact .pure _
  | some settings =>
    exact (respects_now hR).bind fun t => (respects_findByCourse hR course).bind fun _ =>
      respects_sweepEach hR _ _

/-! ### reports -/

theorem respects_takesPart (k : Key) : Respects R (takesPart k) :=
  (respects_now hR).bind fun _ =>
    (respects_ask hR .userWindows fun _ _ h => h.windowsOf k).bind fun _ => .pure _

theorem respects_courseReport? (user : Int) (course : Course) :
    Respects R (courseReport? user course) := by
  refine (respects_tracking? hR course.id).bind fun settings => ?_
  cases settings with
  | none => exact .pure _
  | some settings =>
    exact (respects_get? hR _).bind fun _ =>
      (respects_ask hR .criteria fun _ _ h => h.criteriaFor _).bind fun _ => .pure _

theorem respects_fileEach (user : Int) (courses : List Course) (report : UserReport) :
    Respects R (fileEach user courses report) := by
  induction courses generalizing report with
  | nil => exact .pure _
  | cons course courses ih =>
    refine (respects_takesPart hR _).bind fun takes => .ite ?_ (ih report)
    refine (respects_courseReport? hR user course).bind fun entry => ?_
    cases entry with
    | none => exact ih report
    | some entry => exact ih _

theorem respects_reportedCourses (user : Int) (course : Option Int) :
    Respects R (reportedCourses user course) := by
  cases course with
  | none =>
    show Respects R (Fetch.toAction (ask .userCourses fun s => s.coursesOf user))
    exact respects_ask hR .userCourses fun _ _ h => h.coursesOf user
  | some course =>
    refine (respects_ask hR .findCourse fun _ _ h => h.course? course).bind fun found => ?_
    cases found with
    | none => exact .throw _
    | some c => exact .pure _

theorem respects_report (user : Int) (course : Option Int) :
    Respects R (Action.report user course) := by
  refine (respects_ask hR .findUser fun _ _ h => h.user? user).bind fun found => ?_
  cases found with
  | none => exact .throw _
  | some u =>
    exact (respects_reportedCourses hR user course).bind fun _ => respects_fileEach hR user _ _

end

end Action

/-! ## requests -/

variable {R : Session → Session → Prop}

theorem Operation.respects (hR : Session.Congruence R) (op : Operation) :
    Action.Respects R op.action := by
  cases op with
  | markEnrolled k time => exact .map _ (Action.respects_markEnrolled hR k time)
  | markStarted k time => exact .map _ (Action.respects_markStarted hR k time)
  | markComplete k time => exact .map _ (Action.respects_markComplete hR k time)
  | aggregate k => exact .map _ (Action.respects_aggregate hR k)
  | flag k => exact .map _ (Action.respects_flag hR k)
  | userEnrolled e => exact .map _ (Action.respects_userEnrolled hR e)
  | startUsers course => exact .map _ (Action.respects_startUsers hR course)
  | flagCourse course => exact .map _ (Action.respects_flagCourse hR course)
  | runPending course => exact .map _ (Action.respects_runPending hR course)
  | report user course => exact .map _ (Action.respects_report hR user course)

/-- **No request tells the two sides of a congruence apart.** -/
theorem Request.respects (hR : Session.Congruence R) (q : Request) :
    Action.Respects R q.action := by
  cases q with
  | operation op => exact .map _ (op.respects hR)
  | record k => exact .map _ (Action.respects_get? hR k)
  | settings course => exact .map _ (Action.respects_settings? hR course)

end CourseCompletion
