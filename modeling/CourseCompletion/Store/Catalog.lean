import CourseCompletion.Criterion

/-!
# What the store knows besides records

Courses and users by their number, and the criteria of courses in four tables: what the criteria
are, how the criteria of a kind combine, which user met which criterion, and how each course tracks
completion.
-/

namespace CourseCompletion

structure Course where
  id : Int
  shortName : String
  fullName : String
deriving DecidableEq

structure User where
  id : Int
  username : String
deriving DecidableEq

/-- A criterion that a course has. -/
structure CriterionDefinition where
  id : Int
  course : Int
  kind : CriterionKind
  title : String
deriving DecidableEq

/-- How the criteria of one kind combine in a course. -/
structure KindMethod where
  course : Int
  kind : CriterionKind
  method : Method
deriving DecidableEq

def KindMethod.key (m : KindMethod) : Int × CriterionKind := (m.course, m.kind)

/-- When a user met a criterion. -/
structure CriterionMark where
  user : Int
  criterion : Int
  completed : Option Instant
deriving DecidableEq

def CriterionMark.key (m : CriterionMark) : Int × Int := (m.user, m.criterion)

/-- The tracking settings of one course. -/
structure CourseSettings where
  course : Int
  settings : TrackingSettings
deriving DecidableEq

end CourseCompletion
