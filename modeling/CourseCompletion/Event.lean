import CourseCompletion.Record
import CourseCompletion.Text.Hex

/-!
# Events

What the rest of an organisation hears about: a user completed a course (`Event.courseCompleted`),
or records were created for the participants of a course (`Event.usersStarted`).

A completion carries an `EventId`, 128 bits that stay the same when the event is delivered again.
`EventId.text` writes them in five groups of digits of base 16; `EventId.ofText?` reads that form,
with or without the hyphens, in braces, or as a name that starts with `urn:uuid:`, in any case.
-/

namespace CourseCompletion

structure EventId where
  bits : BitVec 128
deriving DecidableEq

namespace EventId

/-- digits cut into groups of 8, 4, 4, 4 and the rest -/
def grouped (ds : List Char) : List Char :=
  ds.take 8 ++ '-' :: (ds.drop 8).take 4 ++ '-' :: (ds.drop 12).take 4 ++
  '-' :: (ds.drop 16).take 4 ++ '-' :: ds.drop 20

def chars (id : EventId) : List Char := grouped (hexChars 32 id.bits.toNat)

def text (id : EventId) : String := String.ofList id.chars

/-- an id of 32 digits without hyphens -/
def ofDigits? (ds : List Char) : Option EventId :=
  if ds.length = 32 then (hexNumber? ds).map fun n => ⟨BitVec.ofNat 128 n⟩ else none

/-- an id of 36 characters with hyphens between the groups -/
def ofGroups? (s : List Char) : Option EventId :=
  let ds := s.take 8 ++ (s.drop 9).take 4 ++ (s.drop 14).take 4 ++ (s.drop 19).take 4 ++ s.drop 24
  if s.length = 36 ∧ s = grouped ds then ofDigits? ds else none

def ofChars? (s : List Char) : Option EventId :=
  if s.length = 32 then ofDigits? s
  else if s.length = 36 then ofGroups? s
  else if s.length = 38 ∧ s.head? = some '\x7b' ∧ s.getLast? = some '\x7d' then
    ofGroups? ((s.drop 1).take 36)
  else if s.length = 45 ∧ (s.take 9).map Char.toLower = "urn:uuid:".toList then ofGroups? (s.drop 9)
  else none

def ofText? (s : String) : Option EventId := ofChars? s.toList

end EventId

/-- A completion under the number of its event. -/
structure CourseCompleted extends Completion where
  id : EventId
deriving DecidableEq

namespace CourseCompleted

/-- the same event, made known at another time -/
def restamped (e : CourseCompleted) (occurred : Instant) : CourseCompleted := { e with occurred }

end CourseCompleted

inductive Event where
  | courseCompleted (e : CourseCompleted)
  | usersStarted (course : Int) (created : Nat) (occurred : Instant)
deriving DecidableEq

namespace Event

def kind : Event → String
  | courseCompleted _ => "CourseCompleted"
  | usersStarted .. => "UsersStarted"

/-- when the event was made known -/
def occurred : Event → Instant
  | courseCompleted e => e.occurred
  | usersStarted _ _ occurred => occurred

/-- the completion that the event tells of -/
def completion? : Event → Option Completion
  | courseCompleted e => some e.toCompletion
  | usersStarted .. => none

end Event

end CourseCompletion
