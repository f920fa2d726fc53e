import CourseCompletion.Criterion
import CourseCompletion.Record

/-!
# Completion reports

Where a user stands in each course.

* `ReportRow`     one line of a course: a criterion, or the count of a group of criteria;
* `CourseReport`  one course: its rows and the user's standing in it;
* `UserReport`    the courses of a user, filed by standing.

`reportRows` lists a course's criteria: one row that counts the prerequisites, then a row for every
criterion that is neither prerequisite nor activity, then one row that counts the activities.
-/

namespace CourseCompletion

inductive Standing where
  | notYetStarted
  | inProgress
  | complete
deriving DecidableEq

inductive RowStatus where
  | complete
  | incomplete
  | count (done total : Nat)
deriving DecidableEq

def RowStatus.text : RowStatus → String
  | complete => "Complete"
  | incomplete => "Incomplete"
  | count done total => s!"{done} of {total}"

structure ReportRow where
  title : String
  status : RowStatus
  complete : Bool
deriving DecidableEq

namespace ReportRow

/-- a row for a group of criteria -/
def summary (title : String) (done total : Nat) : ReportRow :=
  ⟨title, .count done total, done = total⟩

/-- a row for one criterion -/
def single (title : String) (complete : Bool) : ReportRow :=
  ⟨title, if complete then .complete else .incomplete, complete⟩

end ReportRow

structure CourseReport where
  course : Int
  name : String
  standing : Standing
  rows : List ReportRow
  completed : Option Instant
deriving DecidableEq

/-- The courses of a user, each list in the order in which they were filed. -/
structure UserReport where
  user : Int
  username : String
  inProgress : List CourseReport
  complete : List CourseReport
  notYetStarted : List CourseReport
deriving DecidableEq

namespace UserReport

def new (user : Int) (username : String) : UserReport := ⟨user, username, [], [], []⟩

/-- one more course, filed under its standing -/
def file (r : UserReport) (c : CourseReport) : UserReport :=
  match c.standing with
  | .inProgress => { r with inProgress := r.inProgress ++ [c] }
  | .complete => { r with complete := r.complete ++ [c] }
  | .notYetStarted => { r with notYetStarted := r.notYetStarted ++ [c] }

/-- the courses of the three lists -/
def courses (r : UserReport) : List CourseReport := r.inProgress ++ r.complete ++ r.notYetStarted

def isEmpty (r : UserReport) : Bool := r.courses.isEmpty

def courseCount (r : UserReport) : Nat := r.courses.length

end UserReport

/-! ## one course -/

/-- where a user with this record and these criteria stands -/
def standing (record : Option Record) (criteria : List Criterion) : Standing :=
  if record.any Record.isComplete then .complete
  else if !record.any Record.isStarted && !criteria.any Criterion.isMet then .notYetStarted
  else .inProgress

/-- the criteria of a kind as one row that counts them, if there are any -/
def groupRow (title : String) (kind : CriterionKind) (criteria : List Criterion) : List ReportRow :=
  let group := criteria.filter (·.kind = kind)
  if group = [] then []
  else [.summary title (group.filter Criterion.isMet).length group.length]

/-- the criteria of a course as rows -/
def reportRows (criteria : List Criterion) : List ReportRow :=
  groupRow "Prerequisites completed" .prerequisite criteria ++
  (criteria.filter fun c => c.kind ≠ .activity ∧ c.kind ≠ .prerequisite).map
    (fun c => .single c.title c.isMet) ++
  groupRow "Activities completed" .activity criteria

end CourseCompletion
