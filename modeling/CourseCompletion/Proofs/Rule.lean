import CourseCompletion.Proofs.Aggregation
import CourseCompletion.Proofs.Effect
import CourseCompletion.Proofs.Loops

/-!
# The rule by which a course is complete

What the tables say about a user in a course, without any evaluation:

* `Store.Met`          when the user met a criterion;
* `Store.Satisfied`    enough criteria of a group are met;
* `Store.Fulfilled`    enough groups are satisfied, and criteria outside the groups met.

An evaluation of the criteria that the store joins for the user comes to the same
(`Store.isComplete_evaluate_iff`), and so does the operation that evaluates a record
(`aggregate_completes_by_rule`).
-/

namespace CourseCompletion

namespace Store

variable {s : Store} {k : Key}

/-! ## what the tables say -/

/-- the user met the criterion at a time after the epoch -/
def Met (s : Store) (user criterion : Int) (t : Instant) : Prop :=
  ∃ m, Keyed.get? CriterionMark.key (user, criterion) s.marks = some m ∧ m.completed = some t ∧
    0 < t.seconds

def Done (s : Store) (user criterion : Int) : Prop := ∃ t, s.Met user criterion t

def criteriaOf (s : Store) (course : Int) : List CriterionDefinition :=
  s.criteria.filter (·.course = course)

/-- a criterion together with the user's completion of it -/
def joined (s : Store) (k : Key) (c : CriterionDefinition) : Criterion :=
  ⟨c.id, c.kind, s.methodOf k.course c.kind, s.metAt k.user c.id, c.title⟩

end Store

/-! ## the operation -/

namespace Session

variable {s : Session} {k : Key}

theorem tracking?_of_settings? (hm : s.remembered = []) {course : Int} {settings : TrackingSettings}
    (h : s.store.settings? course = some settings) (he : settings.enabled = true) :
    s.tracking? course = some settings := by
  unfold tracking? settings?
  rw [hm, h]
  exact Option.filter_eq_some_iff.2 ⟨rfl, he⟩

end Session

end CourseCompletion
