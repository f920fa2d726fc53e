import CourseCompletion.Aggregation
import CourseCompletion.Json.Form

/-!
# JSON forms of criteria

Methods, kinds, criteria, tracking settings and evaluations.
-/

namespace CourseCompletion

open Json

namespace Method

def toJson : Method → Json
  | all => .string "all"
  | any => .string "any"

def ofName? (name : String) : Option Method :=
  if name = "all" then some all else if name = "any" then some any else none

def read? (source : Source) (j : Json) : Option Method := (source.name? j).bind ofName?

def ofJson? (j : Json) : Option Method := read? .text j

end Method

namespace CriterionKind

def toJson : CriterionKind → Json
  | activity => .string "activity"
  | prerequisite => .string "course_prerequisite"
  | role => .string "role"
  | other code => .object [("other", nat code)]

/-- a number below 256 -/
def code? (j : Json) : Option (Fin 256) := do
  let n ← j.unsigned?
  if h : n < 256 then some ⟨n, h⟩ else none

def ofJson? (j : Json) : Option CriterionKind :=
  match j with
  | .object [("other", content)] => (code? content).map other
  | j => do
    let name ← j.name?
    if name = "activity" then some activity
    else if name = "course_prerequisite" then some prerequisite
    else if name = "role" then some role
    else none

end CriterionKind

namespace Aggregate

def toJson : Aggregate → Json
  | unset => .string "Unset"
  | complete => .string "Complete"
  | incomplete => .string "Incomplete"

def ofJson? (j : Json) : Option Aggregate := do
  let name ← j.name?
  if name = "Unset" then some unset
  else if name = "Complete" then some complete
  else if name = "Incomplete" then some incomplete
  else none

end Aggregate

namespace Criterion

def toJson (c : Criterion) : Json :=
  .object [("criterion_id", .integer c.id), ("criterion_type", c.kind.toJson),
    ("aggregation_method", c.method.toJson), ("completed_at", .optional ofInstant c.completed),
    ("title", .string c.title)]

def ofJson? (j : Json) : Option Criterion := do
  match ← j.slots? ["criterion_id", "criterion_type", "aggregation_method", "completed_at",
      "title"] 2 with
  | [id, kind, method, completed, title] =>
    some
      { id := ← required signed? id
        kind := ← required CriterionKind.ofJson? kind
        method := ← orElse Method.ofJson? .all method
        completed := ← optional? instant? completed
        title := ← orElse text? "" title }
  | _ => none

end Criterion

namespace TrackingSettings

/-- the fields of settings, which may stand beside others -/
def fields (s : TrackingSettings) : List (String × Json) :=
  [("enabled", .bool s.enabled), ("aggregation_method", s.method.toJson),
    ("start_on_enrol", .bool s.startOnEnrol)]

def toJson (s : TrackingSettings) : Json := .object s.fields

def read? (source : Source) (j : Json) : Option TrackingSettings := do
  match ← j.slots? ["enabled", "aggregation_method", "start_on_enrol"] 1 with
  | [enabled, method, startOnEnrol] =>
    some
      { enabled := ← required flag? enabled
        method := ← orElse (Method.read? source) .all method
        startOnEnrol := ← orElse flag? false startOnEnrol }
  | _ => none

def ofJson? (j : Json) : Option TrackingSettings := read? .text j

end TrackingSettings

namespace Evaluation

def toJson (e : Evaluation) : Json :=
  .object [("status", e.status.toJson), ("activity", e.activity.toJson),
    ("prerequisite", e.prerequisite.toJson), ("role", e.role.toJson),
    ("completed_at", .optional ofInstant e.completed), ("criteria_count", nat e.count)]

def ofJson? (j : Json) : Option Evaluation := do
  match ← j.slots? ["status", "activity", "prerequisite", "role", "completed_at",
      "criteria_count"] 6 with
  | [status, activity, prerequisite, role, completed, count] =>
    some
      { status := ← required Aggregate.ofJson? status
        activity := ← required Aggregate.ofJson? activity
        prerequisite := ← required Aggregate.ofJson? prerequisite
        role := ← required Aggregate.ofJson? role
        completed := ← optional? instant? completed
        count := ← required unsigned? count }
  | _ => none

end Evaluation

end CourseCompletion
