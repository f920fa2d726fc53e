import CourseCompletion.Instant

/-!
# Enrolment windows

A `Window` is one enrolment of a user in a course: it may start and end at given times, it may be
suspended, and the way of enrolling that it came by may be switched off.

* `Window.isLive`        it counts at a moment: active, switched on and not ended;
* `Window.isCurrent`     it is live and has begun;
* `earliestCurrentStart` the earliest start among current windows that have a usable one;
* `liveStarts`           the users with a live window, each with the earliest usable start among
                         their live windows, in the order of the users.
-/

namespace CourseCompletion

inductive EnrolmentStatus where
  | active
  | suspended
deriving DecidableEq

structure Window where
  user : Int
  course : Int
  starts : Option Instant
  ends : Option Instant
  status : EnrolmentStatus
  instanceEnabled : Bool
deriving DecidableEq

namespace Window

def active (user course : Int) : Window := ⟨user, course, none, none, .active, true⟩

/-- active, through a way of enrolling that is on, and not ended -/
def isLive (w : Window) (now : Instant) : Bool :=
  w.status = .active && w.instanceEnabled && w.ends.all (now < ·)

/-- live, and begun -/
def isCurrent (w : Window) (now : Instant) : Bool :=
  w.isLive now && w.starts.all (· < now)

end Window

/-- the earliest start among the windows that are current, of those with a usable start -/
def earliestCurrentStart (windows : List Window) (now : Instant) : Option Instant :=
  Instant.minimum? ((windows.filter (·.isCurrent now)).filterMap fun w => known? w.starts)

/-! ## participants -/

/-- the earlier of two optional instants; an absent one does not count -/
def Instant.earlier : Option Instant → Option Instant → Option Instant
  | some a, some b => some (min a b)
  | some a, none => some a
  | none, b => b

/-- a user with an optional start, put among users in ascending order -/
def insertStart (user : Int) (start : Option Instant) :
    List (Int × Option Instant) → List (Int × Option Instant)
  | [] => [(user, start)]
  | (u, s) :: rest =>
    if user < u then (user, start) :: (u, s) :: rest
    else if user = u then (u, Instant.earlier s start) :: rest
    else (u, s) :: insertStart user start rest

/-- the users with a live window in ascending order, each with the earliest usable start -/
def liveStarts (windows : List Window) (now : Instant) : List (Int × Option Instant) :=
  (windows.filter (·.isLive now)).foldl (fun us w => insertStart w.user (known? w.starts) us) []

end CourseCompletion
