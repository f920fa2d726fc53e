import CourseCompletion.Configuration.Basic
import CourseCompletion.Error
import CourseCompletion.Text.Quoted

/-!
# Errors of a command

* `UsageError`     the command line cannot be read, or asks for help: nothing is run;
* `CommandError`   a command that was read fails.

`CommandError.message` names the error, `CommandError.advice` says it to the user of the program
together with what to do about it, and `CommandError.details?` is for those who look after it.
-/

namespace CourseCompletion

/-- Why a command line is no command. -/
inductive UsageError where
  | help
  | helpOnMissing
  | version
  | missingSubcommand
  | invalidSubcommand
  | unknownArgument
  | missingArgument
  | repeatedArgument
  | tooManyValues
  | invalidValue
  | notInteger
deriving DecidableEq

inductive CommandError where
  | invalidArgument (detail : String)
  | file (detail : String)
  | configuration (detail : String)
  | storage (detail : String)
  | service (e : ServiceError)
  | internal (detail : String)
deriving DecidableEq

/-- an error of a service by name, with what it is about in quotes -/
def ServiceError.details : ServiceError → String
  | invalid detail => s!"ValidationFailed({quotedText detail})"
  | userNotFound id => s!"UserNotFound({quotedText id})"
  | courseNotFound id => s!"CourseNotFound({quotedText id})"
  | recordNotFound what => s!"CompletionNotFound({quotedText what})"
  | conflict resource => s!"ConcurrencyConflict({quotedText resource})"
  | alreadyExists what => s!"AlreadyExists({quotedText what})"
  | repository reason => s!"RepositoryError({quotedText reason})"
  | source detail => s!"SourceError({quotedText detail})"
  | domain detail => s!"DomainError({quotedText detail})"

namespace CommandError

def ofTable (e : TableError) : CommandError := .storage e.message

def ofConfiguration (e : ConfigurationError) : CommandError := .configuration e.message

def message : CommandError → String
  | invalidArgument detail => s!"Invalid argument: {detail}"
  | file detail => s!"IO error: {detail}"
  | configuration detail => s!"Configuration error: {detail}"
  | storage detail => s!"Storage error: {detail}"
  | service e => e.message
  | internal detail => s!"Internal error: {detail}"

/-- what the user is told -/
def advice : CommandError → String
  | invalidArgument detail =>
    s!"Invalid argument: {detail}\n\nRun 'coursetrack --help' for usage information."
  | file detail => s!"File operation failed: {detail}"
  | configuration detail =>
    s!"Configuration error: {detail}\n\nCheck the config file or COURSETRACK_* variables."
  | storage detail => s!"Storage error: {detail}\n\nCheck the file passed with --data."
  | service (.conflict resource) =>
    s!"The completion record of {resource} changed while it was being updated. " ++
      "Run the command again."
  | service e => e.message
  | internal detail => s!"Internal error: {detail}\n\nPlease report this issue."

/-- the error by name, with what it is about in quotes; a file has no more to tell -/
def details? : CommandError → Option String
  | invalidArgument detail =>
    some s!"InvalidArgument \x7b message: {quotedText detail} \x7d"
  | file _ => none
  | configuration detail => some s!"Config({quotedText detail})"
  | storage detail => some s!"Storage({quotedText detail})"
  | service e => some s!"Application({e.details})"
  | internal detail => some s!"Internal({quotedText detail})"

end CommandError

end CourseCompletion
