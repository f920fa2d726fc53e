import CourseCompletion.LogLevel

/-!
# The configuration

A `Configuration` says how much to log, where the file of the store is, and whether updates of
records that changed in the meantime are refused.  `Configuration.check` refuses the values that
no run can use.
-/

namespace CourseCompletion

structure Configuration where
  logLevel : String
  dataFile : Option String
  optimisticLocking : Bool
deriving DecidableEq

inductive ConfigurationError where
  | file (detail : String)
  | unreadable (detail : String)
  | unwritable (detail : String)
  | invalid (detail : String)
  | notFound (path : String)
deriving DecidableEq

def ConfigurationError.message : ConfigurationError → String
  | file detail => s!"IO error: {detail}"
  | unreadable detail => s!"Parse error: {detail}"
  | unwritable detail => s!"Serialize error: {detail}"
  | invalid detail => s!"Validation error: {detail}"
  | notFound path => s!"Config file not found: {path}"

namespace Configuration

/-- the configuration that says nothing -/
def default : Configuration := ⟨"info", none, true⟩

/-- a configuration that a run can use: it names a level of the log, and no empty path -/
def check (c : Configuration) : Except ConfigurationError Unit :=
  if (LogLevel.ofName? c.logLevel).isNone then
    throw (.invalid (s!"Unknown log level '{c.logLevel}', expected one of " ++
      "trace, debug, info, warn, error"))
  else if c.dataFile = some "" then throw (.invalid "data_file must not be empty")
  else return ()

end Configuration

end CourseCompletion
