import CourseCompletion.Criterion

/-!
# Aggregation of criteria

`evaluate` finds the status of a course from a user's criteria.  Activities, prerequisites and
roles are gathered in a bucket each, with the method that their criteria carry; the buckets and
every criterion of another kind are then gathered with the method of the course.

An `Aggregate` has three values: one that has gathered nothing is `unset`, and an unset bucket is
left out, so a course without roles is not held back by its roles.
-/

namespace CourseCompletion

inductive Aggregate where
  | unset
  | complete
  | incomplete
deriving DecidableEq

namespace Aggregate

/-- one more flag gathered with a method -/
def add : Method → Aggregate → Bool → Aggregate
  | .all, state, flag => if flag ∧ state ≠ incomplete then complete else incomplete
  | .any, state, flag => if flag then complete else if state = unset then incomplete else state

/-- flags gathered with a method from the start -/
def ofFlags (method : Method) (flags : List Bool) : Aggregate := flags.foldl (add method) unset

/-- the flag that a set state stands for -/
def flag? : Aggregate → Option Bool
  | unset => none
  | complete => some true
  | incomplete => some false

def isComplete (state : Aggregate) : Bool := state = complete

/-- the states one after the other, each flag added to the one before -/
def steps (method : Method) (state : Aggregate) : List Bool → List Aggregate
  | [] => [state]
  | flag :: flags => state :: steps method (add method state flag) flags

end Aggregate

/-- The state of the buckets of a course, and the latest completion so far. -/
structure Buckets where
  status : Aggregate
  activity : Aggregate
  prerequisite : Aggregate
  role : Aggregate
  latest : Option Instant
deriving DecidableEq

namespace Buckets

def empty : Buckets := ⟨.unset, .unset, .unset, .unset, none⟩

/-- one more criterion; one outside the buckets is gathered with the method of the course -/
def add (overall : Method) (b : Buckets) (c : Criterion) : Buckets :=
  let b := { b with latest := Instant.later b.latest c.metAt }
  match c.kind with
  | .activity => { b with activity := .add c.method b.activity c.isMet }
  | .prerequisite => { b with prerequisite := .add c.method b.prerequisite c.isMet }
  | .role => { b with role := .add c.method b.role c.isMet }
  | .other _ => { b with status := .add overall b.status c.isMet }

/-- the status of the course: the set buckets are gathered after everything else -/
def overall (method : Method) (b : Buckets) : Aggregate :=
  ([b.role, b.activity, b.prerequisite].filterMap Aggregate.flag?).foldl (Aggregate.add method)
    b.status

end Buckets

/-- The outcome of evaluating one user's criteria in one course. -/
structure Evaluation where
  status : Aggregate
  activity : Aggregate
  prerequisite : Aggregate
  role : Aggregate
  completed : Option Instant
  count : Nat
deriving DecidableEq

namespace Evaluation

def isComplete (e : Evaluation) : Bool := e.status.isComplete

def hasCriteria (e : Evaluation) : Bool := e.count ≠ 0

end Evaluation

/-- the status of a course with this method from the criteria of one user -/
def evaluate (overall : Method) (criteria : List Criterion) : Evaluation :=
  let b := criteria.foldl (Buckets.add overall) Buckets.empty
  { status := b.overall overall
    activity := b.activity
    prerequisite := b.prerequisite
    role := b.role
    completed := b.latest
    count := criteria.length }

end CourseCompletion
