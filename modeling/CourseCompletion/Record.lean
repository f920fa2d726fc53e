import CourseCompletion.Instant

/-!
# Completion records

A `Record` follows one user through one course: when the user enrolled, started and completed it.

* `Record.markEnrolled`, `Record.markStarted`   set a time that is not known yet;
* `Record.markComplete`                         completes the course, once;
* `Record.completion?`                          the fact that the completion makes known;
* `Record.flag`, `Record.unflag`                ask for a new evaluation, and take that back.

A time of enrolment or completion never changes once it is set.  The start is set once too, and
lies no later than the completion: completing a course lowers a later start to its own time.
-/

namespace CourseCompletion

/-- A user in a course. -/
structure Key where
  user : Int
  course : Int
deriving DecidableEq

/-- the words for a user in a course -/
def Key.text (k : Key) : String := s!"user {k.user} / course {k.course}"

/-- Progress of one user in one course; `id` is absent until the record is first stored. -/
structure Record where
  id : Option Int
  user : Int
  course : Int
  enrolled : Option Instant
  started : Option Instant
  completed : Option Instant
  reaggregate : Option Instant
  version : Nat
deriving DecidableEq

/-- A user completed a course. -/
structure Completion where
  user : Int
  course : Int
  completed : Instant
  occurred : Instant
deriving DecidableEq

namespace Completion

def key (c : Completion) : Key := ⟨c.user, c.course⟩

/-- the same fact, made known at another time -/
def restamped (c : Completion) (occurred : Instant) : Completion := { c with occurred }

end Completion

namespace Record

/-- a record that is not stored yet -/
def new (k : Key) : Record := ⟨none, k.user, k.course, none, none, none, none, 0⟩

def key (r : Record) : Key := ⟨r.user, r.course⟩

@[simp]
theorem key_new (k : Key) : (new k).key = k := rfl

/-! ## state -/

def isStored (r : Record) : Bool := r.id.isSome

def isEnrolled (r : Record) : Bool := r.enrolled.isSome

def isStarted (r : Record) : Bool := r.started.isSome

def isComplete (r : Record) : Bool := r.completed.isSome

/-- the record is flagged for a time that has come -/
def isDue (r : Record) (now : Instant) : Bool := r.reaggregate.any (· ≤ now)

/-! ## transitions -/

/-- the enrolment at a time, unless one is known -/
def markEnrolled (r : Record) (time : Instant) : Record :=
  if r.isEnrolled then r else { r with enrolled := some time }

/-- the start at a time, or at the completion if that is earlier, unless a start is known -/
def markStarted (r : Record) (time : Instant) : Record :=
  if r.isStarted then r else { r with started := some ((r.completed.map (min time)).getD time) }

/-- the completion at a time, unless the record is complete -/
def markComplete (r : Record) (time : Instant) : Record :=
  if r.isComplete then r
  else { r with started := some ((r.started.map (min · time)).getD time), completed := some time }

/-- what completing the record at a time makes known: nothing if it is complete -/
def completion? (r : Record) (time : Instant) : Option Completion :=
  if r.isComplete then none else some ⟨r.user, r.course, time, time⟩

/-- asks for an evaluation from a time on -/
def flag (r : Record) (time : Instant) : Record := { r with reaggregate := some time }

def unflag (r : Record) : Record := { r with reaggregate := none }

/-- the record with the number and the version under which it is stored -/
def storedAs (r : Record) (id : Int) (version : Nat) : Record :=
  { r with id := some id, version }

/-! ## what the transitions keep -/

@[simp]
theorem key_markEnrolled (r : Record) (t : Instant) : (r.markEnrolled t).key = r.key := by
  unfold markEnrolled; split <;> rfl

@[simp]
theorem key_markStarted (r : Record) (t : Instant) : (r.markStarted t).key = r.key := by
  unfold markStarted; split <;> rfl

@[simp]
theorem key_markComplete (r : Record) (t : Instant) : (r.markComplete t).key = r.key := by
  unfold markComplete; split <;> rfl

@[simp]
theorem key_flag (r : Record) (t : Instant) : (r.flag t).key = r.key := rfl

@[simp]
theorem key_unflag (r : Record) : r.unflag.key = r.key := rfl

@[simp]
theorem key_storedAs (r : Record) (id : Int) (v : Nat) : (r.storedAs id v).key = r.key := rfl

theorem completed_markComplete (r : Record) (t : Instant) :
    (r.markComplete t).completed = some (r.completed.getD t) := by
  unfold markComplete isComplete
  cases h : r.completed <;> simp [h]

theorem completion?_isSome (r : Record) (t : Instant) :
    (r.completion? t).isSome = !r.isComplete := by
  unfold completion?
  cases r.isComplete <;> rfl

end Record

end CourseCompletion
