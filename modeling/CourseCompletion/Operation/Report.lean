import CourseCompletion.Operation.Record
import CourseCompletion.Report

/-!
# Reporting on a user

`Action.report` tells where a user stands in one course, or in every known course that the user is
enrolled in.  A course is left out unless it tracks completion and the user takes part in it now.
-/

namespace CourseCompletion

namespace Action

/-- the user has a live enrolment in the course -/
def takesPart (k : Key) : Action Bool := do
  let now ← now
  let windows ← (ask .userWindows (·.windowsOf k) : Fetch _)
  return windows.any (·.isLive now)

/-- one course of a report, if it tracks completion -/
def courseReport? (user : Int) (course : Course) : Action (Option CourseReport) := do
  match ← tracking? course.id with
  | none => return none
  | some _ =>
    let k : Key := ⟨user, course.id⟩
    let record ← get? k
    let criteria ← (ask .criteria (·.criteriaFor k) : Fetch _)
    return some
      { course := course.id
        name := course.fullName
        standing := standing record criteria
        rows := reportRows criteria
        completed := record.bind Record.completed }

/-- courses filed one after the other -/
def fileEach (user : Int) : List Course → UserReport → Action UserReport
  | [], report => return report
  | course :: courses, report => do
    if ← takesPart ⟨user, course.id⟩ then
      match ← courseReport? user course with
      | some entry => fileEach user courses (report.file entry)
      | none => fileEach user courses report
    else fileEach user courses report

/-- the courses that a report is about -/
def reportedCourses (user : Int) : Option Int → Action (List Course)
  | some course => do
    match ← (ask .findCourse (·.course? course) : Fetch _) with
    | some c => return [c]
    | none => throw (.courseNotFound (toString course))
  | none => (ask .userCourses (·.coursesOf user) : Fetch _)

/-- where a user stands, in one course or in all -/
def report (user : Int) (course : Option Int) : Action UserReport := do
  match ← (ask .findUser (·.user? user) : Fetch _) with
  | none => throw (.userNotFound (toString user))
  | some u =>
    let courses ← reportedCourses user course
    fileEach user courses (.new u.id u.username)

end Action

end CourseCompletion
