import CourseCompletion.Operation.Record

/-!
# Starting users

`Action.userEnrolled` reacts to an enrolment, and `Action.startUsers` creates records for every
live participant of a course.  A course has to track completion for either, and to start users as
they enrol for the first.
-/

namespace CourseCompletion

namespace Action

/-! ## one user -/

/-- the reaction to an enrolment: the user is enrolled and started at its start, or now -/
def userEnrolled (e : UserEnrolled) : Action EnrolmentOutcome := do
  if (← (ask .findCourse (·.course? e.course) : Fetch _)).isNone then
    return .ignored .unknownCourse
  if (← (ask .findUser (·.user? e.user) : Fetch _)).isNone then
    return .ignored .unknownUser
  match ← tracking? e.course with
  | none => return .ignored .completionDisabled
  | some settings =>
    if !settings.startOnEnrol then return .ignored .startOnEnrolDisabled
    let time ← timeOrNow e.starts
    let r ← load e.key
    return .started (← aggregateRecord ((r.markEnrolled time).markStarted time))

/-! ## a whole course -/

/-- the first record of a participant: enrolled at the earliest start, or now -/
def firstRecord (k : Key) (earliest : Option Instant) (startOnEnrol : Bool) (now : Instant) :
    Record :=
  let r := (Record.new k).markEnrolled (earliest.getD now)
  if startOnEnrol then r.markStarted now else r

/-- one participant started: whether a record was created -/
def startUser (k : Key) (earliest : Option Instant) (startOnEnrol : Bool) : Action Bool := do
  if (← get? k).isSome then return false
  let r := firstRecord k earliest startOnEnrol (← now)
  match ← ((Fetch.insert r).run : StateM Session _) with
  | .ok _ => return true
  | .error (.duplicate _ _) => return false
  | .error e => throw e.toServiceError

/-- participants started one after the other, counted -/
def startEach (course : Int) (startOnEnrol : Bool) :
    List (Int × Option Instant) → BulkSummary → Action BulkSummary
  | [], summary => return summary
  | (user, earliest) :: rest, summary => do
    let created ← startUser ⟨user, course⟩ earliest startOnEnrol
    startEach course startOnEnrol rest
      (if created then { summary with created := summary.created + 1 }
        else { summary with skipped := summary.skipped + 1 })

/-- creates the records that live participants of a course do not have yet -/
def startUsers (course : Int) : Action BulkSummary := do
  match ← tracking? course with
  | none => return ⟨0, 0⟩
  | some settings =>
    let now ← now
    let windows ← (ask .courseWindows (·.courseWindows course) : Fetch _)
    let summary ← startEach course settings.startOnEnrol (liveStarts windows now) ⟨0, 0⟩
    if 0 < summary.created then publish (.usersStarted course summary.created now)
    return summary

end Action

end CourseCompletion
