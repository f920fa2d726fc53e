import CourseCompletion.Event
import CourseCompletion.Form.Record
import CourseCompletion.Outcome

/-!
# JSON forms of answers and events

An outcome is a tag with a content: an object with one member for each, in either order, or a list
of the two.  A content that stands before its tag is read as a whole and held until the tag is
known, so it may hold nothing that cannot be read.  An application event is one object that holds
its tag among its fields, and is read as a whole for the same reason.
-/

namespace CourseCompletion

open Json

/-! ## a tag and a content -/

/-- the member of the content comes before the member of the tag -/
def contentFirst (tag content : String) : List (String × Json) → Bool
  | [] => false
  | (key, _) :: members =>
    key = content || (key != tag && contentFirst tag content members)

/-- A tag with the content that belongs to it, and where the content is read from.  A missing
content is none. -/
structure Tagged where
  tag : String
  content : Option Json
  source : Source

/-- the tag, one of some names, and the content of a value; in a list the tag is a plain name -/
def tagged? (source : Source) (tag content : String) (names : List String) : Json → Option Tagged
  | .object members => do
    let t ← slot? members tag
    let c ← slot? members content
    let isFirst := contentFirst tag content members
    guard (!isFirst || (c.map isReadable).getD true)
    some ⟨← source.name? (← t), c, if isFirst then .held else source⟩
  | .array [t, c] => do some ⟨← source.tag? names t, some c, source⟩
  | _ => none

/-! ## outcomes -/

namespace Outcome

/-- the tag of an outcome -/
def tag : Outcome → String
  | saved _ => "saved"
  | completed _ => "completed"
  | alreadyComplete _ => "already_complete"
  | notApplicable => "not_applicable"

def toJson (o : Outcome) : Json :=
  .object (("outcome", .string o.tag) ::
    match o.record? with
    | some r => [("record", r.toJson)]
    | none => [])

def read? (source : Source) (j : Json) : Option Outcome := do
  let ⟨tag, content, _⟩ ← tagged? source "outcome" "record"
    ["saved", "completed", "already_complete", "not_applicable"] j
  if tag = "saved" then (required Record.ofJson? content).map saved
  else if tag = "completed" then (required Record.ofJson? content).map completed
  else if tag = "already_complete" then (required Record.ofJson? content).map alreadyComplete
  else if tag = "not_applicable" then
    match content with
    | none | some .null => some notApplicable
    | _ => none
  else none

def ofJson? (j : Json) : Option Outcome := read? .text j

end Outcome

namespace IgnoreReason

def toJson : IgnoreReason → Json
  | unknownCourse => .string "unknown_course"
  | unknownUser => .string "unknown_user"
  | completionDisabled => .string "completion_disabled"
  | startOnEnrolDisabled => .string "start_on_enrol_disabled"

def ofName? (name : String) : Option IgnoreReason :=
  if name = "unknown_course" then some unknownCourse
  else if name = "unknown_user" then some unknownUser
  else if name = "completion_disabled" then some completionDisabled
  else if name = "start_on_enrol_disabled" then some startOnEnrolDisabled
  else none

def read? (source : Source) (j : Json) : Option IgnoreReason := (source.name? j).bind ofName?

def ofJson? (j : Json) : Option IgnoreReason := read? .text j

end IgnoreReason

namespace EnrolmentOutcome

def toJson : EnrolmentOutcome → Json
  | started o => .object [("result", .string "started"), ("detail", o.toJson)]
  | ignored r => .object [("result", .string "ignored"), ("detail", r.toJson)]

def ofJson? (j : Json) : Option EnrolmentOutcome := do
  let ⟨tag, content, source⟩ ← tagged? .text "result" "detail" ["started", "ignored"] j
  if tag = "started" then (required (Outcome.read? source) content).map started
  else if tag = "ignored" then (required (IgnoreReason.read? source) content).map ignored
  else none

end EnrolmentOutcome

namespace UserEnrolled

def toJson (e : UserEnrolled) : Json :=
  .object [("user_id", .integer e.user), ("course_id", .integer e.course),
    ("time_start", .optional ofInstant e.starts)]

def ofJson? (j : Json) : Option UserEnrolled := do
  match ← j.slots? ["user_id", "course_id", "time_start"] 2 with
  | [user, course, starts] =>
    some
      { user := ← required signed? user
        course := ← required signed? course
        starts := ← optional? instant? starts }
  | _ => none

end UserEnrolled

namespace BulkSummary

def toJson (s : BulkSummary) : Json :=
  .object [("created", nat s.created), ("skipped", nat s.skipped)]

def ofJson? (j : Json) : Option BulkSummary := do
  match ← j.slots? ["created", "skipped"] 2 with
  | [created, skipped] =>
    some { created := ← required unsigned? created, skipped := ← required unsigned? skipped }
  | _ => none

end BulkSummary

namespace SweepSummary

def toJson (s : SweepSummary) : Json :=
  .object [("processed", nat s.processed), ("completed", nat s.completed)]

def ofJson? (j : Json) : Option SweepSummary := do
  match ← j.slots? ["processed", "completed"] 2 with
  | [processed, completed] =>
    some
      { processed := ← required unsigned? processed
        completed := ← required unsigned? completed }
  | _ => none

end SweepSummary

/-! ## events -/

namespace EventId

def toJson (id : EventId) : Json := .string id.text

def ofJson? (j : Json) : Option EventId := j.text?.bind ofText?

end EventId

namespace CourseCompleted

/-- a completion with the number and the time of its event apart -/
def toJson (e : CourseCompleted) : Json :=
  .object [("metadata", .object [("event_id", e.id.toJson), ("occurred_at", ofInstant e.occurred)]),
    ("user_id", .integer e.user), ("course_id", .integer e.course),
    ("time_completed", ofInstant e.completed)]

/-- the number and the time of an event -/
def metadata? (j : Json) : Option (EventId × Instant) := do
  match ← j.slots? ["event_id", "occurred_at"] 2 with
  | [id, occurred] => some (← required EventId.ofJson? id, ← required instant? occurred)
  | _ => none

def ofJson? (j : Json) : Option CourseCompleted := do
  match ← j.slots? ["metadata", "user_id", "course_id", "time_completed"] 4 with
  | [metadata, user, course, completed] =>
    let (id, occurred) ← required metadata? metadata
    some
      { id, occurred
        user := ← required signed? user
        course := ← required signed? course
        completed := ← required instant? completed }
  | _ => none

end CourseCompleted

namespace Event

def toJson : Event → Json
  | courseCompleted e =>
    .object [("type", .string "CourseCompleted"), ("event_id", e.id.toJson),
      ("user_id", .integer e.user), ("course_id", .integer e.course),
      ("time_completed", ofInstant e.completed), ("occurred_at", ofInstant e.occurred)]
  | usersStarted course created occurred =>
    .object [("type", .string "UsersStarted"), ("course_id", .integer course),
      ("created", nat created), ("timestamp", ofInstant occurred)]

/-- the fields of a completion, without the tag -/
def courseCompleted? (j : Json) : Option Event := do
  match ← j.slots? ["event_id", "user_id", "course_id", "time_completed", "occurred_at"] 5 with
  | [id, user, course, completed, occurred] =>
    some (.courseCompleted
      { id := ← required EventId.ofJson? id
        user := ← required signed? user
        course := ← required signed? course
        completed := ← required instant? completed
        occurred := ← required instant? occurred })
  | _ => none

/-- the fields of a bulk start, without the tag -/
def usersStarted? (j : Json) : Option Event := do
  match ← j.slots? ["course_id", "created", "timestamp"] 3 with
  | [course, created, occurred] =>
    some (.usersStarted (← required signed? course) (← required unsigned? created)
      (← required instant? occurred))
  | _ => none

/-- the event of a tag and its other fields -/
def ofTag? (tag : Json) (fields : Json) : Option Event := do
  let tag ← tag.text?
  if tag = "CourseCompleted" then courseCompleted? fields
  else if tag = "UsersStarted" then usersStarted? fields
  else none

def ofJson? (j : Json) : Option Event := do
  guard j.isReadable
  match j with
  | .object members =>
    let tag ← slot? members "type"
    ofTag? (← tag) j
  | .array (tag :: fields) => ofTag? tag (.array fields)
  | _ => none

end Event

end CourseCompletion
