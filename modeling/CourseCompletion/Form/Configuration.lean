import CourseCompletion.Configuration.Basic
import CourseCompletion.Json.Form

/-!
# The JSON form of a configuration

Unlike an absent time, an absent path is left out where a configuration is written.
-/

namespace CourseCompletion

open Json

namespace Configuration

def toJson (c : Configuration) : Json :=
  .object (("log_level", .string c.logLevel) ::
    (match c.dataFile with
      | some path => [("data_file", .string path)]
      | none => []) ++
    [("optimistic_locking", .bool c.optimisticLocking)])

def ofJson? (j : Json) : Option Configuration := do
  match ← j.slots? ["log_level", "data_file", "optimistic_locking"] 0 with
  | [logLevel, dataFile, optimisticLocking] =>
    some
      { logLevel := ← orElse text? default.logLevel logLevel
        dataFile := ← optional? text? dataFile
        optimisticLocking := ← orElse flag? default.optimisticLocking optimisticLocking }
  | _ => none

end Configuration

end CourseCompletion
