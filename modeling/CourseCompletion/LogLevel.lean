import CourseCompletion.Text.Digits

/-!
# Levels of the log

`LogLevel.resolve` chooses the level of a run: a quiet run logs errors only, a verbose one also
what helps to find them, and any other what the configuration says.
-/

namespace CourseCompletion

inductive LogLevel where
  | error
  | warn
  | info
  | debug
  | trace
deriving DecidableEq

namespace LogLevel

/-- the levels, by how much they let through -/
def all : List LogLevel := [error, warn, info, debug, trace]

def name : LogLevel → String
  | error => "error"
  | warn => "warn"
  | info => "info"
  | debug => "debug"
  | trace => "trace"

/-- the name of a level in any case -/
def ofName? (s : String) : Option LogLevel :=
  let small := String.ofList (s.toList.map Char.toLower)
  all.find? (·.name = small)

/-- the place of a level among all, counted from one, as a number that may have a plus sign -/
def ofNumber? (s : String) : Option LogLevel := do
  guard (s.toList.head? ≠ some '-')
  let n ← integer? s.toList
  guard (1 ≤ n)
  all[n.toNat - 1]?

/-- the level that a configured text names -/
def ofText? (s : String) : Option LogLevel := ofNumber? s <|> ofName? s

/-- the level of a run; a text that names none stands for `info` -/
def resolve (configured : String) (verbose quiet : Bool) : LogLevel :=
  if quiet then error
  else if verbose then debug
  else (ofText? configured).getD info

end LogLevel

end CourseCompletion
