import CourseCompletion.Event
import CourseCompletion.Store.Basic

/-!
# Sessions

A `Session` is what an operation works on: the store, the clock, the settings that were looked up
before, and the events published so far.

* `Fetch α`    reading or writing the tables: an answer or a `SourceError`;
* `Action α`   a whole operation: an answer or a `ServiceError`.

Either way the session goes on, with all that was written before an error.  Every use of a table
goes through `access`, where an `Outage` of that `Access` may strike: it lets some uses pass, and
then fails others with its error.  A session without outages never fails there (`access_calm`).
-/

namespace CourseCompletion

/-! ## outages -/

/-- The ways in which an operation uses the tables. -/
inductive Access where
  | find
  | findByCourse
  | insert
  | update
  | userWindows
  | courseWindows
  | settings
  | criteria
  | findCourse
  | findUser
  | userCourses
deriving DecidableEq

/-- Uses of one kind that fail: not the next `after` ones, but `count` that come then, or all. -/
structure Outage where
  access : Access
  error : SourceError
  after : Nat
  count : Option Nat
deriving DecidableEq

namespace Outage

/-- an outage has no failure left -/
def isSpent (o : Outage) : Bool := o.count = some 0

/-- a use of the tables among outages, in the order in which they were added: what is left of them,
and the error of the one that strikes -/
def strike (a : Access) : List Outage → Option SourceError × List Outage
  | [] => (none, [])
  | o :: os =>
    if o.access ≠ a then let (e, os) := strike a os; (e, o :: os)
    else if 0 < o.after then let (e, os) := strike a os; (e, { o with after := o.after - 1 } :: os)
    else if o.isSpent then let (e, os) := strike a os; (e, o :: os)
    else (some o.error, { o with count := o.count.map (· - 1) } :: os)

end Outage

/-! ## sessions -/

structure Session where
  store : Store
  now : Instant
  outages : List Outage
  remembered : List CourseSettings
  published : List Event
deriving DecidableEq

namespace Session

/-- a session on a store, at a time, with nothing published and nothing to go wrong -/
def start (store : Store) (now : Instant) : Session := ⟨store, now, [], [], []⟩

/-- the number of the next completion event -/
def nextEventId (s : Session) : EventId := ⟨BitVec.ofNat 128 s.published.length⟩

end Session

/-- Reading or writing the tables of a session. -/
abbrev Fetch (α : Type) := ExceptT SourceError (StateM Session) α

/-- A whole operation on a session. -/
abbrev Action (α : Type) := ExceptT ServiceError (StateM Session) α

/-- as part of an operation -/
def Fetch.toAction (fetch : Fetch α) : Action α :=
  ExceptT.adapt SourceError.toServiceError fetch

instance : MonadLift Fetch Action := ⟨Fetch.toAction⟩

/-! ## using the tables -/

/-- one use of the tables, which an outage may fail -/
def access (a : Access) : Fetch Unit := fun s =>
  let (e, outages) := Outage.strike a s.outages
  (e.elim (.ok ()) .error, { s with outages })

theorem access_calm (a : Access) {s : Session} (h : s.outages = []) :
    access a s = (.ok (), s) := by
  obtain ⟨store, now, outages, remembered, published⟩ := s
  subst h
  rfl

/-- an answer of the store -/
def ask (a : Access) (question : Store → α) : Fetch α := do
  access a
  return question (← get).store

namespace Fetch

/-- an answer of the store that may be an error -/
def query (question : Store → Except SourceError α) : Fetch α := fun s => (question s.store, s)

def find (k : Key) : Fetch (Option Record) := do
  access .find
  query (·.completions.find k)

def findByCourse (course : Int) : Fetch (List Record) := do
  access .findByCourse
  query (·.completions.findByCourse course)

/-- a write to the table of completions -/
def write (change : CompletionTable → Except SourceError (Record × CompletionTable)) :
    Fetch Record := fun s =>
  match change s.store.completions with
  | .error e => (.error e, s)
  | .ok (r, completions) => (.ok r, { s with store := { s.store with completions } })

def insert (r : Record) : Fetch Record := do
  access .insert
  write (·.insert r)

def update (r : Record) : Fetch Record := do
  access .update
  write (·.update r)

end Fetch

/-! ## settings that were looked up before -/

/-- a new entry in the memory of settings, in the place of one for the same course -/
def remember (course : Int) (settings : TrackingSettings) (memory : List CourseSettings) :
    List CourseSettings :=
  Keyed.put CourseSettings.course ⟨course, settings⟩ memory

/-- the settings of a course in the memory -/
def remembered? (course : Int) (memory : List CourseSettings) : Option TrackingSettings :=
  (Keyed.get? CourseSettings.course course memory).map CourseSettings.settings

/-- the memory without a course -/
def forget (course : Int) (memory : List CourseSettings) : List CourseSettings :=
  Keyed.erase CourseSettings.course course memory

namespace Action

/-- The settings of a course, from the memory if they are in it.  Settings that the store has are
remembered; a course without settings is looked up again each time. -/
def settings? (course : Int) : Action (Option TrackingSettings) := do
  match remembered? course (← get).remembered with
  | some settings => return some settings
  | none =>
    let found ← (ask .settings (·.settings? course) : Fetch _)
    if let some settings := found then
      modify fun s => { s with remembered := remember course settings s.remembered }
    return found

/-- the settings of a course that tracks completion -/
def tracking? (course : Int) : Action (Option TrackingSettings) := do
  return (← settings? course).filter TrackingSettings.enabled

/-- forgets all settings -/
def forgetAll : Action Unit := modify fun s => { s with remembered := [] }

/-! ## time and events -/

def now : Action Instant := return (← get).now

/-- a time if it is known, else now -/
def timeOrNow (time : Option Instant) : Action Instant := return (known? time).getD (← now)

def publish (e : Event) : Action Unit := modify fun s => { s with published := s.published ++ [e] }

/-- publishes a completion under a new number, as made known now -/
def publishCompletion (c : Completion) : Action Unit := do
  let s ← get
  publish (.courseCompleted ⟨c.restamped s.now, s.nextEventId⟩)

end Action

end CourseCompletion
