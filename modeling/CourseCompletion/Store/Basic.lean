import CourseCompletion.Store.Catalog
import CourseCompletion.Store.Completions
import CourseCompletion.Window

/-!
# The store

A `Store` holds every table, and answers what the services ask of it.  In the tables with one
entry to a key, a later entry replaces an earlier one and goes to the end.

* `Store.ofSnapshot`   the store that a `Snapshot` fills;
* `Store.snapshot`     its tables, each in the order in which it is written.
-/

namespace CourseCompletion

/-- Every table of a store as a plain list. -/
structure Snapshot where
  courses : List Course
  users : List User
  settings : List CourseSettings
  criteria : List CriterionDefinition
  methods : List KindMethod
  marks : List CriterionMark
  windows : List Window
  completions : List Row
deriving DecidableEq

def Snapshot.empty : Snapshot := ⟨[], [], [], [], [], [], [], []⟩

structure Store where
  courses : List Course
  users : List User
  settings : List CourseSettings
  criteria : List CriterionDefinition
  methods : List KindMethod
  marks : List CriterionMark
  windows : List Window
  completions : CompletionTable
deriving DecidableEq

namespace Store

/-- the store of a snapshot -/
def ofSnapshot (s : Snapshot) (locking : Bool) : Store where
  courses := Keyed.ofList Course.id s.courses
  users := Keyed.ofList User.id s.users
  settings := Keyed.ofList CourseSettings.course s.settings
  criteria := s.criteria
  methods := Keyed.ofList KindMethod.key s.methods
  marks := Keyed.ofList CriterionMark.key s.marks
  windows := s.windows
  completions := .ofRows s.completions locking

def empty (locking : Bool) : Store := ofSnapshot .empty locking

/-! ## changing tables -/

def addCourse (s : Store) (c : Course) : Store :=
  { s with courses := Keyed.put Course.id c s.courses }

def addUser (s : Store) (u : User) : Store := { s with users := Keyed.put User.id u s.users }

def setSettings (s : Store) (c : CourseSettings) : Store :=
  { s with settings := Keyed.put CourseSettings.course c s.settings }

def addCriterion (s : Store) (c : CriterionDefinition) : Store :=
  { s with criteria := s.criteria ++ [c] }

def setMethod (s : Store) (m : KindMethod) : Store :=
  { s with methods := Keyed.put KindMethod.key m s.methods }

def mark (s : Store) (m : CriterionMark) : Store :=
  { s with marks := Keyed.put CriterionMark.key m s.marks }

def addWindow (s : Store) (w : Window) : Store := { s with windows := s.windows ++ [w] }

def clearCompletions (s : Store) : Store := { s with completions := s.completions.clear }

/-! ## asking -/

def course? (s : Store) (course : Int) : Option Course := Keyed.get? Course.id course s.courses

def user? (s : Store) (user : Int) : Option User := Keyed.get? User.id user s.users

def settings? (s : Store) (course : Int) : Option TrackingSettings :=
  (Keyed.get? CourseSettings.course course s.settings).map CourseSettings.settings

/-- how the criteria of a kind combine in a course: all of them, unless it says otherwise -/
def methodOf (s : Store) (course : Int) (kind : CriterionKind) : Method :=
  ((Keyed.get? KindMethod.key (course, kind) s.methods).map KindMethod.method).getD .all

/-- when a user met a criterion, if at a time that counts -/
def metAt (s : Store) (user criterion : Int) : Option Instant :=
  known? ((Keyed.get? CriterionMark.key (user, criterion) s.marks).bind CriterionMark.completed)

/-- the criteria of a course in their order, each with the user's completion of it -/
def criteriaFor (s : Store) (k : Key) : List Criterion :=
  (s.criteria.filter (·.course = k.course)).map fun c =>
    ⟨c.id, c.kind, s.methodOf k.course c.kind, s.metAt k.user c.id, c.title⟩

/-- the enrolments of a user in a course -/
def windowsOf (s : Store) (k : Key) : List Window :=
  s.windows.filter fun w => w.user = k.user ∧ w.course = k.course

/-- the enrolments in a course -/
def courseWindows (s : Store) (course : Int) : List Window :=
  s.windows.filter (·.course = course)

/-- the courses that a user has any enrolment in, in the order of the first of each -/
def courseIdsOf (s : Store) (user : Int) : List Int :=
  ((s.windows.filter (·.user = user)).map Window.course).eraseDups

/-- the same courses, as far as they are known -/
def coursesOf (s : Store) (user : Int) : List Course :=
  (s.courseIdsOf user).filterMap s.course?

/-! ## the tables in their written order -/

def methodLe (a b : KindMethod) : Bool :=
  a.course < b.course || (a.course == b.course && a.kind.rank ≤ b.kind.rank)

def markLe (a b : CriterionMark) : Bool :=
  a.user < b.user || (a.user == b.user && a.criterion ≤ b.criterion)

/-- the settings by course -/
def sortedSettings (s : Store) : List CourseSettings :=
  s.settings.mergeSort fun a b => a.course ≤ b.course

/-- every table in the order in which it is written -/
def snapshot (s : Store) : Snapshot where
  courses := s.courses
  users := s.users
  settings := s.sortedSettings
  criteria := s.criteria
  methods := s.methods.mergeSort methodLe
  marks := s.marks.mergeSort markLe
  windows := s.windows
  completions := s.completions.sortedRows

/-- the courses that have settings, in ascending order -/
def courseIds (s : Store) : List Int := s.sortedSettings.map CourseSettings.course

end Store

end CourseCompletion
