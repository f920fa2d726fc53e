import CourseCompletion.Form.Criterion
import CourseCompletion.Form.Record
import CourseCompletion.Json.Printer
import CourseCompletion.Json.Reader
import CourseCompletion.Store.Basic

/-!
# The file of a store

The JSON forms of the entries of every table, and `Snapshot.fileText` and `Snapshot.ofFileText?`,
the text of the file that holds them all.

The settings of a course stand beside its number in one object.  All members of that object are
read and held until the settings are taken out of them, so one that cannot be read is refused there,
though it would not matter anywhere else.
-/

namespace CourseCompletion

open Json

namespace Course

def toJson (c : Course) : Json :=
  .object [("id", .integer c.id), ("short_name", .string c.shortName),
    ("full_name", .string c.fullName)]

def ofJson? (j : Json) : Option Course := do
  match ← j.slots? ["id", "short_name", "full_name"] 3 with
  | [id, shortName, fullName] =>
    some
      { id := ← required signed? id
        shortName := ← required text? shortName
        fullName := ← required text? fullName }
  | _ => none

end Course

namespace User

def toJson (u : User) : Json :=
  .object [("id", .integer u.id), ("username", .string u.username)]

def ofJson? (j : Json) : Option User := do
  match ← j.slots? ["id", "username"] 2 with
  | [id, username] =>
    some { id := ← required signed? id, username := ← required text? username }
  | _ => none

end User

namespace EnrolmentStatus

def toJson : EnrolmentStatus → Json
  | active => .string "active"
  | suspended => .string "suspended"

def ofJson? (j : Json) : Option EnrolmentStatus := do
  let name ← j.name?
  if name = "active" then some active else if name = "suspended" then some suspended else none

end EnrolmentStatus

namespace Window

def toJson (w : Window) : Json :=
  .object [("user_id", .integer w.user), ("course_id", .integer w.course),
    ("time_start", .optional ofInstant w.starts), ("time_end", .optional ofInstant w.ends),
    ("status", w.status.toJson), ("instance_enabled", .bool w.instanceEnabled)]

def ofJson? (j : Json) : Option Window := do
  match ← j.slots? ["user_id", "course_id", "time_start", "time_end", "status",
      "instance_enabled"] 2 with
  | [user, course, starts, ends, status, instanceEnabled] =>
    some
      { user := ← required signed? user
        course := ← required signed? course
        starts := ← optional? instant? starts
        ends := ← optional? instant? ends
        status := ← orElse EnrolmentStatus.ofJson? .active status
        instanceEnabled := ← orElse flag? true instanceEnabled }
  | _ => none

end Window

namespace CourseSettings

def toJson (c : CourseSettings) : Json :=
  .object (("course_id", .integer c.course) :: c.settings.fields)

def ofJson? : Json → Option CourseSettings
  | .object members => do
    guard (membersReadable members)
    let course ← slot? members "course_id"
    some
      { course := ← required signed? course
        settings := ← TrackingSettings.read? .held (.object members) }
  | _ => none

end CourseSettings

namespace CriterionDefinition

def toJson (c : CriterionDefinition) : Json :=
  .object [("criterion_id", .integer c.id), ("course_id", .integer c.course),
    ("criterion_type", c.kind.toJson), ("title", .string c.title)]

def ofJson? (j : Json) : Option CriterionDefinition := do
  match ← j.slots? ["criterion_id", "course_id", "criterion_type", "title"] 3 with
  | [id, course, kind, title] =>
    some
      { id := ← required signed? id
        course := ← required signed? course
        kind := ← required CriterionKind.ofJson? kind
        title := ← orElse text? "" title }
  | _ => none

end CriterionDefinition

namespace KindMethod

def toJson (m : KindMethod) : Json :=
  .object [("course_id", .integer m.course), ("criterion_type", m.kind.toJson),
    ("method", m.method.toJson)]

def ofJson? (j : Json) : Option KindMethod := do
  match ← j.slots? ["course_id", "criterion_type", "method"] 3 with
  | [course, kind, method] =>
    some
      { course := ← required signed? course
        kind := ← required CriterionKind.ofJson? kind
        method := ← required Method.ofJson? method }
  | _ => none

end KindMethod

namespace CriterionMark

def toJson (m : CriterionMark) : Json :=
  .object [("user_id", .integer m.user), ("criterion_id", .integer m.criterion),
    ("time_completed", .optional ofInstant m.completed)]

def ofJson? (j : Json) : Option CriterionMark := do
  match ← j.slots? ["user_id", "criterion_id", "time_completed"] 2 with
  | [user, criterion, completed] =>
    some
      { user := ← required signed? user
        criterion := ← required signed? criterion
        completed := ← optional? instant? completed }
  | _ => none

end CriterionMark

/-! ## the whole file -/

namespace Snapshot

def toJson (s : Snapshot) : Json :=
  .object [("courses", .list Course.toJson s.courses), ("users", .list User.toJson s.users),
    ("settings", .list CourseSettings.toJson s.settings),
    ("criteria", .list CriterionDefinition.toJson s.criteria),
    ("methods", .list KindMethod.toJson s.methods),
    ("criterion_completions", .list CriterionMark.toJson s.marks),
    ("enrolments", .list Window.toJson s.windows),
    ("completions", .list Row.toJson s.completions)]

def ofJson? (j : Json) : Option Snapshot := do
  match ← j.slots? ["courses", "users", "settings", "criteria", "methods",
      "criterion_completions", "enrolments", "completions"] 0 with
  | [courses, users, settings, criteria, methods, marks, windows, completions] =>
    some
      { courses := ← orElse (listOf? Course.ofJson?) [] courses
        users := ← orElse (listOf? User.ofJson?) [] users
        settings := ← orElse (listOf? CourseSettings.ofJson?) [] settings
        criteria := ← orElse (listOf? CriterionDefinition.ofJson?) [] criteria
        methods := ← orElse (listOf? KindMethod.ofJson?) [] methods
        marks := ← orElse (listOf? CriterionMark.ofJson?) [] marks
        windows := ← orElse (listOf? Window.ofJson?) [] windows
        completions := ← orElse (listOf? Row.ofJson?) [] completions }
  | _ => none

/-- the text of the file of these tables -/
def fileText (s : Snapshot) : String := s.toJson.pretty

/-- the tables that a file holds -/
def ofFileText? (text : String) : Option Snapshot := (Json.ofText? text).bind ofJson?

end Snapshot

end CourseCompletion
