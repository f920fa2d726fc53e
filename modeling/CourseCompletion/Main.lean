import CourseCompletion.Program
import Std.Time

/-!
# The command line

The program on a real machine: its files, its environment and its clock.
-/

namespace CourseCompletion

namespace Machine

/-- an action, or the text of what went wrong -/
def attempt (action : IO α) : IO (Except String α) := do
  try return .ok (← action)
  catch e => return .error (toString e)

/-- the directory that holds the last part of a path, if the path names one -/
def parent? (path : String) : Option String :=
  match (path.splitOn "/").dropLast with
  | [] => none
  | [""] => none
  | parts => some ("/".intercalate parts)

instance : FileAccess IO where
  workingDirectory := return (← IO.currentDir).toString
  isThere path := return (← attempt (IO.FS.realPath path)).isOk
  isFile path := do
    match ← attempt do (← IO.FS.realPath path).metadata with
    | .ok file => return file.type == .file
    | .error _ => return false
  read path := attempt (IO.FS.readFile path)
  write path text := attempt do
    if let some directory := parent? path then IO.FS.createDirAll directory
    IO.FS.writeFile path text

/-- a variable in the form `name=value` -/
def binding? (entry : String) : Option (String × String) :=
  match entry.splitOn "=" with
  | name :: value :: more => some (name, "=".intercalate (value :: more))
  | _ => none

/-- the variables of the environment -/
def bindings : IO Variables := do
  match ← attempt (IO.FS.readFile "/proc/self/environ") with
  | .ok text => return (text.splitOn "\x00").filterMap binding?
  | .error _ => return []

/-- the number of the account that runs a process, in the status of the process -/
def accountNumber? (status : String) : Option String :=
  (status.splitOn "\n").findSome? fun line => match line.splitOn "\t" with
    | "Uid:" :: number :: _ => some number
    | _ => none

/-- the home directory of an account in the table of all accounts -/
def homeOf? (number table : String) : Option String :=
  (table.splitOn "\n").findSome? fun line => match line.splitOn ":" with
    | [_, _, n, _, _, home, _] => if n = number then some home else none
    | _ => none

/-- the home directory of the account that runs this program -/
def accountHome : IO (Option String) := do
  match ← attempt (IO.FS.readFile "/proc/self/status"),
      ← attempt (IO.FS.readFile "/etc/passwd") with
  | .ok status, .ok table => return (accountNumber? status).bind (homeOf? · table)
  | _, _ => return none

/-- the time of day, cut to its second -/
def now : IO Instant := do
  let t ← Std.Time.Timestamp.now
  let exact := Instant.ofParts? t.toSecondsSinceUnixEpoch.val
    (t.toNanosecondsSinceUnixEpoch.val % 1000000000).toNat
  return (exact.getD .epoch).wholeSecond

/-- what a run finds around it on this machine -/
def surroundings : IO Surroundings := do
  return ⟨← bindings, ← accountHome, ← (← IO.getStdout).isTty, ← now⟩

end Machine

end CourseCompletion

open CourseCompletion in
def main (arguments : List String) : IO UInt32 := do
  let finish ← Program.run arguments (← Machine.surroundings)
  (← IO.getStdout).putStr finish.output
  (← IO.getStderr).putStr finish.complaint
  return finish.code.toUInt32
