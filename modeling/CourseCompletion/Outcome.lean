import CourseCompletion.Record

/-!
# Outcomes

What the operations on completion records answer.

* `Outcome`            a record operation: what became of the record;
* `EnrolmentOutcome`   the reaction to an enrolment: started, or ignored for a reason;
* `BulkSummary`        the records created for a whole course;
* `SweepSummary`       the flagged records that were evaluated again.
-/

namespace CourseCompletion

inductive Outcome where
  | saved (r : Record)
  | completed (r : Record)
  | alreadyComplete (r : Record)
  | notApplicable
deriving DecidableEq

namespace Outcome

def record? : Outcome → Option Record
  | saved r | completed r | alreadyComplete r => some r
  | notApplicable => none

/-- this call completed the course -/
def justCompleted : Outcome → Bool
  | completed _ => true
  | _ => false

/-- the course tracks completion -/
def isApplicable : Outcome → Bool
  | notApplicable => false
  | _ => true

end Outcome

/-- A user was enrolled in a course. -/
structure UserEnrolled where
  user : Int
  course : Int
  starts : Option Instant
deriving DecidableEq

def UserEnrolled.key (e : UserEnrolled) : Key := ⟨e.user, e.course⟩

inductive IgnoreReason where
  | unknownCourse
  | unknownUser
  | completionDisabled
  | startOnEnrolDisabled
deriving DecidableEq

inductive EnrolmentOutcome where
  | started (outcome : Outcome)
  | ignored (reason : IgnoreReason)
deriving DecidableEq

structure BulkSummary where
  created : Nat
  skipped : Nat
deriving DecidableEq

structure SweepSummary where
  processed : Nat
  completed : Nat
deriving DecidableEq

end CourseCompletion
