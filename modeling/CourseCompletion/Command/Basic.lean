import CourseCompletion.Record

/-!
# Commands

A `Command` is one thing that a user of the program asks for; times are seconds since the start of
1970, as they were written.  An `Invocation` is a command with the options that every command has.
-/

namespace CourseCompletion

inductive Command where
  | enrol (k : Key) (time : Option Int)
  | start (k : Key) (time : Option Int)
  | complete (k : Key) (time : Option Int)
  | aggregate (k : Key)
  | bulkStart (course : Int)
  | reaggregate (course : Int) (all : Bool)
  | report (user : Int) (course : Option Int)
  | showRecord (k : Key)
deriving DecidableEq

/-- A command, the file of the store, the file of the configuration, and whether to save the store
and how much to tell. -/
structure Invocation where
  command : Command
  data : Option String
  config : Option String
  save : Bool
  verbose : Bool
  quiet : Bool
deriving DecidableEq

end CourseCompletion
