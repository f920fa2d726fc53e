import CourseCompletion.Json.Form
import CourseCompletion.Row

/-!
# JSON forms of records

Records, with their times as text, and stored rows, with their times as columns.  The number and
the version, which the table counts, are written in 64 bits.
-/

namespace CourseCompletion

open Json

namespace Key

def toJson (k : Key) : Json :=
  .object [("user_id", .integer k.user), ("course_id", .integer k.course)]

def ofJson? (j : Json) : Option Key := do
  match ← j.slots? ["user_id", "course_id"] 2 with
  | [user, course] =>
    some { user := ← required signed? user, course := ← required signed? course }
  | _ => none

end Key

namespace Record

def toJson (r : Record) : Json :=
  .object [("id", .optional signed r.id), ("user_id", .integer r.user),
    ("course_id", .integer r.course), ("time_enrolled", .optional ofInstant r.enrolled),
    ("time_started", .optional ofInstant r.started),
    ("time_completed", .optional ofInstant r.completed),
    ("reaggregate", .optional ofInstant r.reaggregate), ("version", unsigned r.version)]

def ofJson? (j : Json) : Option Record := do
  match ← j.slots? ["id", "user_id", "course_id", "time_enrolled", "time_started",
      "time_completed", "reaggregate", "version"] 8 with
  | [id, user, course, enrolled, started, completed, reaggregate, version] =>
    some
      { id := ← optional? signed? id
        user := ← required signed? user
        course := ← required signed? course
        enrolled := ← optional? instant? enrolled
        started := ← optional? instant? started
        completed := ← optional? instant? completed
        reaggregate := ← optional? instant? reaggregate
        version := ← required unsigned? version }
  | _ => none

end Record

namespace Row

def toJson (r : Row) : Json :=
  .object [("id", signed r.id), ("userid", .integer r.user), ("course", .integer r.course),
    ("timeenrolled", .integer r.enrolled), ("timestarted", .integer r.started),
    ("timecompleted", .integer r.completed), ("reaggregate", .integer r.reaggregate),
    ("version", unsigned r.version)]

def ofJson? (j : Json) : Option Row := do
  match ← j.slots? ["id", "userid", "course", "timeenrolled", "timestarted", "timecompleted",
      "reaggregate", "version"] 3 with
  | [id, user, course, enrolled, started, completed, reaggregate, version] =>
    some
      { id := ← required signed? id
        user := ← required signed? user
        course := ← required signed? course
        enrolled := ← orElse signed? 0 enrolled
        started := ← orElse signed? 0 started
        completed := ← orElse signed? 0 completed
        reaggregate := ← orElse signed? 0 reaggregate
        version := ← orElse unsigned? 0 version }
  | _ => none

end Row

end CourseCompletion
