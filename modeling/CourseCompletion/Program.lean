import CourseCompletion.Command.Arguments
import CourseCompletion.Command.Run
import CourseCompletion.Configuration.File
import CourseCompletion.Files
import CourseCompletion.Form.Snapshot

/-!
# The program

`Program.run` is a whole run: it reads the command line and the configuration, opens the file of
the store, runs the command, and writes the store back if it was told to and nothing failed.

* the file of the configuration is the one of `--config`, which must be there, or else one in the
  directory for configurations, which need not be;
* the file of the store is the one of `--data`, or else that of the configuration; a file that is
  not there holds an empty store;
* an error is told in a line that begins with `error:`, in red where colours are wanted.
-/

namespace CourseCompletion

/-- How a run ends: its exit code, and what it writes to the two outputs. -/
structure Finish where
  code : Nat
  output : String
  complaint : String
deriving DecidableEq

/-- What a run finds around it: the variables of the environment, the home directory of the
account, whether a terminal shows its output, and the time. -/
structure Surroundings where
  bindings : Variables
  accountHome : Option String
  onTerminal : Bool
  now : Instant

namespace Program

/-! ## the configuration -/

/-- the directory for configurations: the one of the environment, or else one in the home directory
of the environment or of the account -/
def configurationDirectory (around : Surroundings) : String :=
  match (around.bindings.value? "XDG_CONFIG_HOME").filter (·.startsWith "/") with
  | some directory => directory
  | none =>
    match (around.bindings.value? "HOME").filter (· ≠ "") <|> around.accountHome with
    | some home => Path.join home ".config"
    | none => "."

/-- the file of the configuration, unless another is chosen -/
def configurationPath (around : Surroundings) : String :=
  Path.join (Path.join (configurationDirectory around) "coursetrack") "config.toml"

section

variable {m : Type → Type} [Monad m] [FileAccess m]

/-- the text of the file of a configuration, or else of the one whose name goes on with `.toml` -/
def configurationText (path : String) : m (Option String) := do
  let path := Path.within (← FileAccess.workingDirectory) path
  match ← (path :: (Path.withEnd? ".toml" path).toList).findM? FileAccess.isFile with
  | none => return none
  | some path => return (← FileAccess.read path).toOption

/-- the configuration of a file, which may be required to be there -/
def configurationAt (path : String) (required : Bool) (ours : String) (bindings : Variables) :
    ExceptT ConfigurationError m Configuration := do
  if required && !(← FileAccess.isThere (m := m) path) then throw (.notFound path)
  Configuration.load (← configurationText (m := m) path) ours bindings

/-- a configuration written to a file, whatever the file held before -/
def saveConfiguration (path : String) (c : Configuration) : ExceptT ConfigurationError m Unit := do
  match ← FileAccess.write (m := m) path c.fileText with
  | .ok () => return
  | .error detail => throw (.file detail)

/-- the configuration of a run, checked -/
def configuration (chosen : Option String) (around : Surroundings) :
    ExceptT ConfigurationError m Configuration := do
  let path := chosen.getD (configurationPath around)
  let c ← configurationAt path chosen.isSome "COURSETRACK" around.bindings
  c.check
  return c

/-! ## the store -/

/-- the store of a file -/
def storeOf (path : Option String) (locking : Bool) : ExceptT CommandError m Store := do
  match path with
  | none => return .empty locking
  | some path =>
    if ← FileAccess.isThere (m := m) path then
      match ← FileAccess.read (m := m) path with
      | .error detail => throw (.ofTable (.file detail))
      | .ok text =>
        match Snapshot.ofFileText? text with
        | some snapshot => return .ofSnapshot snapshot locking
        | none => throw (.ofTable (.decoding "the file does not hold a store"))
    else return .empty locking

/-- a store written to its file, if it has one -/
def keep (path : Option String) (store : Store) : ExceptT CommandError m Unit := do
  match path with
  | none => return
  | some path =>
    match ← FileAccess.write (m := m) path store.snapshot.fileText with
    | .ok () => return
    | .error detail => throw (.ofTable (.file detail))

/-! ## a run -/

/-- a command on the store of a file: what it answers, if it is run to its end, and the error that
ended it or the writing of the store after it -/
def perform (path : Option String) (locking save : Bool) (command : Command) (now : Instant) :
    m (Option Answer × Option CommandError) := do
  match ← (storeOf (m := m) path locking).run with
  | .error e => return (none, some e)
  | .ok store =>
    match command.run (.start store now) with
    | (.error e, _) => return (none, some e)
    | (.ok answer, s) =>
      if save then
        match ← (keep (m := m) path s.store).run with
        | .ok () => return (some answer, none)
        | .error e => return (some answer, some e)
      else return (some answer, none)

/-- the command of an invocation, as the configuration says -/
def execute (i : Invocation) (around : Surroundings) :
    m (Option Answer × Option CommandError) := do
  match ← (configuration (m := m) i.config around).run with
  | .error e => return (none, some (.ofConfiguration e))
  | .ok c => perform (i.data <|> c.dataFile) c.optimisticLocking i.save i.command around.now

/-- the text of an answer -/
def answerText (answer : Answer) : String := answer.toJson.sorted.pretty ++ "\n"

/-- colours are wanted: they are forced, or nothing forbids them and a terminal shows the output -/
def wantsColours (around : Surroundings) : Bool :=
  let value? := around.bindings.value?
  (value? "CLICOLOR_FORCE").any (· ≠ "0") ||
    ((value? "NO_COLOR").isNone && around.onTerminal && (value? "CLICOLOR").all (· ≠ "0"))

/-- the word that an error is told with, bold and red where colours are wanted -/
def errorWord (coloured : Bool) : String :=
  if coloured then "\x1b[1;31merror:\x1b[0m" else "error:"

/-- the text of an error: what the user is told, and the rest if the run is verbose -/
def errorText (e : CommandError) (coloured verbose : Bool) : String :=
  errorWord coloured ++ " " ++ e.advice ++ "\n" ++
    if verbose then e.details?.getD "" ++ "\n" else ""

/-- how the program is called -/
def usage : String :=
  "Usage: coursetrack [--data FILE] [--config FILE] [--save] [-v] [-q] COMMAND\n\n" ++
  "Commands:\n" ++
  "  enrol, start, complete  --user ID --course ID [--time SECS]\n" ++
  "  aggregate, show         --user ID --course ID\n" ++
  "  bulk-start              --course ID\n" ++
  "  reaggregate             --course ID [--all]\n" ++
  "  report                  --user ID [--course ID]\n"

/-- how a run without a command ends -/
def refusal : UsageError → Finish
  | .help => ⟨0, usage, ""⟩
  | .version => ⟨0, "coursetrack 0.1.0\n", ""⟩
  | _ => ⟨2, "", usage⟩

/-- a run with the arguments of the command line -/
def run (arguments : List String) (around : Surroundings) : m Finish := do
  match Invocation.ofArguments arguments with
  | .error e => return refusal e
  | .ok i =>
    let (answer, error) ← execute i around
    return {
      code := if error.isSome then 1 else 0
      output := (answer.map answerText).getD ""
      complaint := (error.map fun e => errorText e (wantsColours around) i.verbose).getD "" }

end

end Program

end CourseCompletion
