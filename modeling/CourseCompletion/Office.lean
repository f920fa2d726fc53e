import CourseCompletion.Form.Snapshot
import CourseCompletion.Session

/-!
# An office

Three desks work on one store: one for records and enrolments, one for sweeps, one for reports.
They share the clock and the events, but each remembers settings on its own, and keeps them from
one operation to the next.  Which desk an operation is put to does not show
(`Office.desks_do_not_show`).

`Office.run` runs an operation at a desk; `Office.reopen` closes the office and opens it again on
the file of its store.
-/

namespace CourseCompletion

inductive Desk where
  | records
  | sweeps
  | reports
deriving DecidableEq

structure Office where
  session : Session
  memory : Desk → List CourseSettings

namespace Office

/-- an office on a store, at a time -/
def start (store : Store) (now : Instant) : Office := ⟨.start store now, fun _ => []⟩

/-- an operation at a desk: its answer, and the office that it leaves -/
def run (o : Office) (d : Desk) (action : Action α) : Except ServiceError α × Office :=
  let (answer, session) := action.run { o.session with remembered := o.memory d }
  (answer, { session, memory := fun e => if e = d then session.remembered else o.memory e })

/-- the same office with desks that remember nothing -/
def newDesks (o : Office) : Office := { o with memory := fun _ => [] }

/-- the office with its store changed from outside -/
def changeStore (o : Office) (change : Store → Store) : Office :=
  { o with session := { o.session with store := change o.session.store } }

def setClock (o : Office) (now : Instant) : Office :=
  { o with session := { o.session with now } }

/-- one more outage, after those that are there -/
def addOutage (o : Office) (outage : Outage) : Office :=
  { o with session := { o.session with outages := o.session.outages ++ [outage] } }

def clearOutages (o : Office) : Office := { o with session := { o.session with outages := [] } }

/-- a new office on the store that the file of this one's store holds -/
def reopen (o : Office) : Option Office :=
  let store := o.session.store
  (Snapshot.ofFileText? store.snapshot.fileText).map fun snapshot =>
    start (.ofSnapshot snapshot store.completions.locking) o.session.now

/-- how many events of a kind were published -/
def countEvents (o : Office) (kind : String) : Nat :=
  (o.session.published.filter (·.kind = kind)).length

end Office

end CourseCompletion
