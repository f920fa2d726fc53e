import CourseCompletion.Aggregation
import CourseCompletion.Outcome
import CourseCompletion.Session

/-!
# Operations on one record

Each operation loads the record of a user in a course, or begins a new one, changes it, and stores
it with `save`.  `save` gives a new record without enrolment time the earliest current start of the
user's enrolments, or else now.

A record that is still incomplete is evaluated from the criteria of the course before it is stored,
if the course tracks completion (`evaluateRecord`).  All completions go through `completeRecord`,
which stores the record first and then publishes that the course was completed.
-/

namespace CourseCompletion

namespace Action

/-! ## loading and storing -/

/-- the stored record, if there is one -/
def get? (k : Key) : Action (Option Record) := Fetch.find k

/-- the stored record, or a new one -/
def load (k : Key) : Action Record := return (← get? k).getD (.new k)

/-- a record with its enrolment time, looked up from the enrolments if it has none -/
def withEnrolment (r : Record) : Action Record := do
  if r.isEnrolled then return r
  let now ← now
  let windows ← (ask .userWindows (·.windowsOf r.key) : Fetch _)
  return r.markEnrolled ((earliestCurrentStart windows now).getD now)

/-- a record written to the table: over its row, or as a new row -/
def save (r : Record) : Action Record := do
  if r.isStored then Fetch.update r
  else Fetch.insert (← withEnrolment r)

/-! ## completing and evaluating -/

/-- the completion of a record at a time, or now if that is unknown: stored, then published -/
def completeRecord (r : Record) (time : Option Instant) : Action Outcome := do
  let time ← timeOrNow time
  match r.completion? time with
  | none => return .alreadyComplete r
  | some completion =>
    let saved ← save (r.markComplete time)
    publishCompletion completion
    return .completed saved

/-- an incomplete record, completed if the criteria of its course say so, and stored either way -/
def evaluateRecord (r : Record) (settings : TrackingSettings) : Action Outcome := do
  let criteria ← (ask .criteria (·.criteriaFor r.key) : Fetch _)
  if criteria = [] then return .saved (← save r)
  let result := evaluate settings.method criteria
  if result.isComplete then completeRecord r result.completed
  else return .saved (← save r)

/-- a changed record, evaluated if its course tracks completion, and stored in any case -/
def saveAndEvaluate (r : Record) : Action Outcome := do
  if r.isComplete then return .alreadyComplete (← save r)
  match ← tracking? r.course with
  | some settings => evaluateRecord r settings
  | none => return .saved (← save r)

/-- a record evaluated and stored, but left alone if its course does not track completion -/
def aggregateRecord (r : Record) : Action Outcome := do
  if r.isComplete then return .alreadyComplete (← save r)
  match ← tracking? r.course with
  | some settings => evaluateRecord r settings
  | none => return .notApplicable

/-! ## the operations -/

/-- records an enrolment -/
def markEnrolled (k : Key) (time : Option Instant) : Action Outcome := do
  let r ← load k
  saveAndEvaluate (r.markEnrolled (← timeOrNow time))

/-- records a start -/
def markStarted (k : Key) (time : Option Instant) : Action Outcome := do
  let r ← load k
  saveAndEvaluate (r.markStarted (← timeOrNow time))

/-- records a completion; a complete record is not touched -/
def markComplete (k : Key) (time : Option Instant) : Action Outcome := do
  let r ← load k
  if r.isComplete then return .alreadyComplete r
  completeRecord r time

/-- evaluates a record from the criteria of its course -/
def aggregate (k : Key) : Action Outcome := do
  aggregateRecord (← load k)

/-- flags a stored record for the next sweep -/
def flag (k : Key) : Action (Option Record) := do
  match ← get? k with
  | none => return none
  | some r => return some (← save (r.flag (← now)))

end Action

end CourseCompletion
