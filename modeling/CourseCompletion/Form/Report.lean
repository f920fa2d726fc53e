import CourseCompletion.Json.Form
import CourseCompletion.Report

/-!
# JSON forms of reports
-/

namespace CourseCompletion

open Json

namespace Standing

def toJson : Standing → Json
  | notYetStarted => .string "not_yet_started"
  | inProgress => .string "in_progress"
  | complete => .string "complete"

def ofJson? (j : Json) : Option Standing := do
  let name ← j.name?
  if name = "not_yet_started" then some notYetStarted
  else if name = "in_progress" then some inProgress
  else if name = "complete" then some complete
  else none

end Standing

namespace RowStatus

def toJson : RowStatus → Json
  | complete => .string "complete"
  | incomplete => .string "incomplete"
  | count done total => .object [("count", .object [("done", nat done), ("total", nat total)])]

/-- the two numbers of a count -/
def count? (j : Json) : Option RowStatus := do
  match ← j.slots? ["done", "total"] 2 with
  | [done, total] => some (.count (← required unsigned? done) (← required unsigned? total))
  | _ => none

def ofJson? (j : Json) : Option RowStatus :=
  match j with
  | .object [("count", content)] => count? content
  | j => do
    let name ← j.name?
    if name = "complete" then some complete
    else if name = "incomplete" then some incomplete
    else none

end RowStatus

namespace ReportRow

def toJson (r : ReportRow) : Json :=
  .object [("title", .string r.title), ("status", r.status.toJson), ("complete", .bool r.complete)]

def ofJson? (j : Json) : Option ReportRow := do
  match ← j.slots? ["title", "status", "complete"] 3 with
  | [title, status, complete] =>
    some
      { title := ← required text? title
        status := ← required RowStatus.ofJson? status
        complete := ← required flag? complete }
  | _ => none

end ReportRow

namespace CourseReport

def toJson (c : CourseReport) : Json :=
  .object [("course_id", .integer c.course), ("course_name", .string c.name),
    ("status", c.standing.toJson), ("rows", .list ReportRow.toJson c.rows),
    ("time_completed", .optional ofInstant c.completed)]

def ofJson? (j : Json) : Option CourseReport := do
  match ← j.slots? ["course_id", "course_name", "status", "rows", "time_completed"] 5 with
  | [course, name, standing, rows, completed] =>
    some
      { course := ← required signed? course
        name := ← required text? name
        standing := ← required Standing.ofJson? standing
        rows := ← required (listOf? ReportRow.ofJson?) rows
        completed := ← optional? instant? completed }
  | _ => none

end CourseReport

namespace UserReport

def toJson (r : UserReport) : Json :=
  .object [("user_id", .integer r.user), ("username", .string r.username),
    ("in_progress", .list CourseReport.toJson r.inProgress),
    ("complete", .list CourseReport.toJson r.complete),
    ("not_yet_started", .list CourseReport.toJson r.notYetStarted)]

def ofJson? (j : Json) : Option UserReport := do
  match ← j.slots? ["user_id", "username", "in_progress", "complete", "not_yet_started"] 5 with
  | [user, username, inProgress, complete, notYetStarted] =>
    some
      { user := ← required signed? user
        username := ← required text? username
        inProgress := ← required (listOf? CourseReport.ofJson?) inProgress
        complete := ← required (listOf? CourseReport.ofJson?) complete
        notYetStarted := ← required (listOf? CourseReport.ofJson?) notYetStarted }
  | _ => none

end UserReport

end CourseCompletion
