import CourseCompletion.Instant

/-!
# Completion criteria

A course is complete for a user when the user has met enough of its criteria.

* `Method`            all of a group, or any of it;
* `CriterionKind`     activities, prerequisites and roles form groups of their own; every other
                      kind is told apart by a number;
* `Criterion`         a criterion of a course together with one user's completion of it;
* `TrackingSettings`  whether and how a course tracks completion.
-/

namespace CourseCompletion

/-- How a group of criteria combines into one status. -/
inductive Method where
  | all
  | any
deriving DecidableEq

inductive CriterionKind where
  | activity
  | prerequisite
  | role
  | other (code : Fin 256)
deriving DecidableEq

/-- the place of a kind among the kinds -/
def CriterionKind.rank : CriterionKind → Nat
  | activity => 0
  | prerequisite => 1
  | role => 2
  | other code => 3 + code

/-- A criterion of a course, with the time at which a user completed it. -/
structure Criterion where
  id : Int
  kind : CriterionKind
  method : Method
  completed : Option Instant
  title : String
deriving DecidableEq

namespace Criterion

/-- when the criterion was met, if at a time that counts -/
def metAt (c : Criterion) : Option Instant := known? c.completed

def isMet (c : Criterion) : Bool := c.metAt.isSome

end Criterion

/-- How a course tracks completion. -/
structure TrackingSettings where
  enabled : Bool
  method : Method
  startOnEnrol : Bool
deriving DecidableEq

namespace TrackingSettings

/-- tracking is on, with this method for the whole course -/
def on (method : Method) : TrackingSettings := ⟨true, method, false⟩

def off : TrackingSettings := ⟨false, .all, false⟩

def withStartOnEnrol (s : TrackingSettings) (startOnEnrol : Bool) : TrackingSettings :=
  { s with startOnEnrol }

end TrackingSettings

end CourseCompletion
