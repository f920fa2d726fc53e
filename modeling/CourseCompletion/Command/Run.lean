import CourseCompletion.Command.Basic
import CourseCompletion.Command.Error
import CourseCompletion.Form.Outcome
import CourseCompletion.Form.Report
import CourseCompletion.Operation.Enrolment
import CourseCompletion.Operation.Record
import CourseCompletion.Operation.Report
import CourseCompletion.Operation.Sweep

/-!
# Running a command

`Command.action` is the operation behind a command, unless the command carries a time that is none;
`Command.run` runs it on a session that remembers no settings.
-/

namespace CourseCompletion

/-- What a command answers. -/
inductive Answer where
  | enrolment (o : EnrolmentOutcome)
  | outcome (o : Outcome)
  | bulk (s : BulkSummary)
  | sweep (flagged : Nat) (s : SweepSummary)
  | report (r : UserReport)
  | record (r : Record)
deriving DecidableEq

def Answer.toJson : Answer → Json
  | enrolment o => o.toJson
  | outcome o => o.toJson
  | bulk s => s.toJson
  | sweep flagged s =>
    .object [("flagged", .nat flagged), ("processed", .nat s.processed),
      ("completed", .nat s.completed)]
  | report r => r.toJson
  | record r => r.toJson

namespace Command

/-- the instant of a time in seconds: after the epoch, and not beyond the last year -/
def instant (seconds : Int) : Except CommandError Instant :=
  if seconds ≤ 0 then
    throw (.invalidArgument s!"time must be positive Unix seconds, got {seconds}")
  else match Instant.ofSeconds? seconds with
    | some t => return t
    | none => throw (.invalidArgument s!"time out of range: {seconds}")

def instant? : Option Int → Except CommandError (Option Instant)
  | none => return none
  | some seconds => return some (← instant seconds)

/-- a sweep of a course, with every incomplete record flagged before it or not -/
def reaggregation (course : Int) (all : Bool) : Action Answer := do
  let flagged ← if all then Action.flagCourse course else pure 0
  return .sweep flagged (← Action.runPending course)

def storedRecord (k : Key) : Action Answer := do
  match ← Action.get? k with
  | some r => return .record r
  | none => throw (.recordNotFound k.text)

/-- the operation behind a command -/
def action : Command → Except CommandError (Action Answer)
  | enrol k time => do
    let starts ← instant? time
    return .enrolment <$> Action.userEnrolled ⟨k.user, k.course, starts⟩
  | start k time => do
    let time ← instant? time
    return .outcome <$> Action.markStarted k time
  | complete k time => do
    let time ← instant? time
    return .outcome <$> Action.markComplete k time
  | aggregate k => return .outcome <$> Action.aggregate k
  | bulkStart course => return .bulk <$> Action.startUsers course
  | reaggregate course all => return reaggregation course all
  | report user course => return .report <$> Action.report user course
  | showRecord k => return storedRecord k

/-- a command on a session: its answer, and the session that it leaves -/
def run (c : Command) (s : Session) : Except CommandError Answer × Session :=
  match c.action with
  | .error e => (.error e, s)
  | .ok action =>
    let (answer, s) := ExceptT.run action { s with remembered := [] }
    (answer.mapError .service, s)

end Command

end CourseCompletion
