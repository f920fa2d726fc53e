/-!
# Errors

Three layers, each of which names what went wrong in its own terms.

* `TableError`     a table of the store, or the file that holds it;
* `SourceError`    what a service sees of the tables: each `TableError` is one (`toSourceError`);
* `ServiceError`   what a caller of a service sees: each `SourceError` is one (`toServiceError`).

`message` is the text of an error.
-/

namespace CourseCompletion

inductive TableError where
  | notFound (entity id : String)
  | duplicate (entity key : String)
  | conflict (detail : String)
  | invalidRow (detail : String)
  | encoding (detail : String)
  | decoding (detail : String)
  | file (detail : String)
deriving DecidableEq

inductive SourceError where
  | invalid (field reason : String)
  | ruleBroken (rule : String)
  | notFound (entity id : String)
  | duplicate (entity key : String)
  | conflict (resource : String)
  | storage (reason : String)
  | unavailable (source reason : String)
deriving DecidableEq

inductive ServiceError where
  | invalid (detail : String)
  | userNotFound (id : String)
  | courseNotFound (id : String)
  | recordNotFound (what : String)
  | conflict (resource : String)
  | alreadyExists (what : String)
  | repository (reason : String)
  | source (detail : String)
  | domain (detail : String)
deriving DecidableEq

namespace TableError

def message : TableError → String
  | notFound entity id => s!"Entity not found: {entity} with id {id}"
  | duplicate entity key => s!"Duplicate {entity}: {key}"
  | conflict detail => s!"Concurrency conflict: {detail}"
  | invalidRow detail => s!"Invalid row: {detail}"
  | encoding detail => s!"Serialization error: {detail}"
  | decoding detail => s!"Deserialization error: {detail}"
  | file detail => s!"I/O error: {detail}"

/-- An error of what was asked keeps its cause; any other is a failure of the storage. -/
def toSourceError : TableError → SourceError
  | notFound entity id => .notFound entity id
  | duplicate entity key => .duplicate entity key
  | conflict detail => .conflict detail
  | invalidRow detail | encoding detail | decoding detail | file detail => .storage detail

end TableError

namespace SourceError

def message : SourceError → String
  | invalid field reason => s!"Validation error: {field} - {reason}"
  | ruleBroken rule => s!"Business rule violation: {rule}"
  | notFound entity id => s!"Entity not found: {entity} with id {id}"
  | duplicate entity key => s!"Duplicate entity: {entity} with key {key}"
  | conflict resource => s!"Concurrency conflict: {resource}"
  | storage reason => s!"Storage failure: {reason}"
  | unavailable source reason => s!"Source unavailable: {source} - {reason}"

/-- Users and courses that are missing are told apart from anything else that is. -/
def toServiceError : SourceError → ServiceError
  | invalid field reason => .invalid s!"{field}: {reason}"
  | ruleBroken rule => .domain (ruleBroken rule).message
  | notFound entity id =>
    if entity = "User" then .userNotFound id
    else if entity = "Course" then .courseNotFound id
    else .recordNotFound s!"{entity} {id}"
  | duplicate entity key => .alreadyExists s!"{entity} {key}"
  | conflict resource => .conflict resource
  | storage reason => .repository reason
  | unavailable source reason => .source s!"{source}: {reason}"

end SourceError

namespace ServiceError

def message : ServiceError → String
  | invalid detail => s!"Validation failed: {detail}"
  | userNotFound id => s!"User not found: {id}"
  | courseNotFound id => s!"Course not found: {id}"
  | recordNotFound what => s!"Completion record not found: {what}"
  | conflict resource => s!"Concurrency conflict: {resource}"
  | alreadyExists what => s!"Already exists: {what}"
  | repository reason => s!"Repository error: {reason}"
  | source detail => s!"Source error: {detail}"
  | domain detail => s!"Domain error: {detail}"

end ServiceError

end CourseCompletion
