import CourseCompletion.Command.Basic
import CourseCompletion.Command.Error
import CourseCompletion.Text.Digits

/-!
# Reading a command line

`Invocation.ofArguments` reads the arguments of the program: the name of a subcommand with its
options behind it, and the common options before or behind it.

* `OptionName`        an option, with its name and whether it takes a value;
* `Argument.ofText`   how one argument is written: `--name`, `--name=value`, `-vq`, `--` or plain;
* `Given`             the values that one level, before or behind the subcommand, was given;
* `Scan`              a level while its arguments are read.

A value that stands apart from its option is entered only when the next option or the end of the
level comes, so a mistake in between is reported first.
-/

namespace CourseCompletion

/-! ## names -/

inductive OptionName where
  | data
  | config
  | user
  | course
  | time
  | save
  | verbose
  | quiet
  | all
  | help
  | version
deriving DecidableEq

namespace OptionName

def every : List OptionName :=
  [data, config, user, course, time, save, verbose, quiet, all, help, version]

def text : OptionName → String
  | data => "data"
  | config => "config"
  | user => "user"
  | course => "course"
  | time => "time"
  | save => "save"
  | verbose => "verbose"
  | quiet => "quiet"
  | all => "all"
  | help => "help"
  | version => "version"

/-- the short form of an option -/
def letter? : OptionName → Option Char
  | verbose => some 'v'
  | quiet => some 'q'
  | help => some 'h'
  | version => some 'V'
  | _ => none

/-- the option takes a value -/
def takesValue : OptionName → Bool
  | data | config | user | course | time => true
  | _ => false

/-- the options that may stand before and behind a subcommand -/
def common : List OptionName := [data, config, save, verbose, quiet, help]

/-- the options that may stand before a subcommand -/
def leading : List OptionName := common ++ [version]

def ofText? (options : List OptionName) (s : List Char) : Option OptionName :=
  options.find? (·.text.toList = s)

def ofLetter? (options : List OptionName) (c : Char) : Option OptionName :=
  options.find? (·.letter? = some c)

end OptionName

inductive Subcommand where
  | enrol
  | start
  | complete
  | aggregate
  | bulkStart
  | reaggregate
  | report
  | showRecord
deriving DecidableEq

namespace Subcommand

def every : List Subcommand :=
  [enrol, start, complete, aggregate, bulkStart, reaggregate, report, showRecord]

def text : Subcommand → String
  | enrol => "enrol"
  | start => "start"
  | complete => "complete"
  | aggregate => "aggregate"
  | bulkStart => "bulk-start"
  | reaggregate => "reaggregate"
  | report => "report"
  | showRecord => "show"

def ofText? (s : String) : Option Subcommand := every.find? (·.text = s)

/-- the options of a subcommand -/
def options : Subcommand → List OptionName
  | enrol | start | complete => [.user, .course, .time]
  | aggregate | showRecord | report => [.user, .course]
  | bulkStart => [.course]
  | reaggregate => [.course, .all]

end Subcommand

/-! ## how an argument is written -/

inductive Argument where
  | escape
  | long (name : List Char) (value : Option (List Char))
  | short (letters : List Char)
  | plain (value : String)
deriving DecidableEq

namespace Argument

/-- a name with the value behind the first equals sign -/
def splitValue (s : List Char) : List Char × Option (List Char) :=
  match s.dropWhile (· ≠ '=') with
  | [] => (s, none)
  | _ :: value => (s.takeWhile (· ≠ '='), some value)

def ofText (s : String) : Argument :=
  match s.toList with
  | ['-', '-'] => escape
  | '-' :: '-' :: r => long (splitValue r).1 (splitValue r).2
  | '-' :: c :: r => short (c :: r)
  | _ => plain s

end Argument

/-! ## the values of a level -/

/-- What a level was given; it holds every option, whether the level has it or not. -/
structure Given where
  data : Option String
  config : Option String
  user : Option Int
  course : Option Int
  time : Option Int
  save : Bool
  verbose : Bool
  quiet : Bool
  all : Bool
deriving DecidableEq

namespace Given

def nothing : Given := ⟨none, none, none, none, none, false, false, false, false⟩

def has (g : Given) : OptionName → Bool
  | .data => g.data.isSome
  | .config => g.config.isSome
  | .user => g.user.isSome
  | .course => g.course.isSome
  | .time => g.time.isSome
  | .save => g.save
  | .verbose => g.verbose
  | .quiet => g.quiet
  | .all => g.all
  | .help | .version => false

/-- the value of a file: not empty -/
def path (value : String) : Except UsageError String :=
  if value = "" then throw .invalidValue else return value

/-- the value of a number or a time: an integer of 64 bits -/
def number (value : String) : Except UsageError Int :=
  match signed64? value.toList with
  | some n => return n
  | none => throw .notInteger

/-- a value entered for an option -/
def put (g : Given) (value : String) : OptionName → Except UsageError Given
  | .data => return { g with data := some (← path value) }
  | .config => return { g with config := some (← path value) }
  | .user => return { g with user := some (← number value) }
  | .course => return { g with course := some (← number value) }
  | .time => return { g with time := some (← number value) }
  | _ => return g

/-- an option without a value: entered, or an answer of its own -/
def raise (g : Given) : OptionName → Except UsageError Given
  | .save => return { g with save := true }
  | .verbose => return { g with verbose := true }
  | .quiet => return { g with quiet := true }
  | .all => return { g with all := true }
  | .help => throw .help
  | .version => throw .version
  | _ => return g

/-- a value entered for an option that has none yet -/
def enter (g : Given) (option : OptionName) (value : String) : Except UsageError Given :=
  if g.has option then throw .repeatedArgument else g.put value option

/-- the common options of two levels: those behind the subcommand come first -/
def withOuter (inner outer : Given) : Given :=
  { inner with
    data := inner.data <|> outer.data
    config := inner.config <|> outer.config
    save := inner.save || outer.save
    verbose := inner.verbose || outer.verbose
    quiet := inner.quiet || outer.quiet }

def key? (g : Given) : Option Key := do
  return ⟨← g.user, ← g.course⟩

/-- the command of a subcommand, if all that it needs was given -/
def command? (g : Given) : Subcommand → Option Command
  | .enrol => g.key?.map (.enrol · g.time)
  | .start => g.key?.map (.start · g.time)
  | .complete => g.key?.map (.complete · g.time)
  | .aggregate => g.key?.map .aggregate
  | .bulkStart => g.course.map .bulkStart
  | .reaggregate => g.course.map (.reaggregate · g.all)
  | .report => g.user.map (.report · g.course)
  | .showRecord => g.key?.map .showRecord

end Given

/-! ## reading a level -/

/-- An option that takes a value and is not entered yet, with the value once it has come. -/
structure Pending where
  option : OptionName
  value : Option String
deriving DecidableEq

structure Scan where
  given : Given
  pending : Option Pending
  escaped : Bool
deriving DecidableEq

namespace Scan

/-- a level before its first argument -/
def start : Scan := ⟨.nothing, none, false⟩

/-- an option waits for its value -/
def isWaiting (s : Scan) : Bool := s.pending.any (·.value.isNone)

/-- the values of a level with a pending option entered -/
def settle (s : Scan) : Except UsageError Given :=
  match s.pending with
  | none => return s.given
  | some ⟨_, none⟩ => throw .invalidValue
  | some ⟨option, some value⟩ => s.given.enter option value

/-- an option that takes a value, with the value if it is written behind an equals sign -/
def valued (s : Scan) (option : OptionName) : Option (List Char) → Except UsageError Scan
  | none => return { s with given := ← s.settle, pending := some ⟨option, none⟩ }
  | some value => do
    let given ← s.settle
    return { s with given := ← given.enter option (String.ofList value), pending := none }

def flag (s : Scan) (option : OptionName) : Except UsageError Scan := do
  let given ← s.settle
  if given.has option then throw .repeatedArgument
  return { s with given := ← given.raise option, pending := none }

def long (options : List OptionName) (s : Scan) (name : List Char) (value : Option (List Char)) :
    Except UsageError Scan :=
  match OptionName.ofText? options name with
  | none => throw .unknownArgument
  | some option =>
    if option.takesValue then s.valued option value
    else if value.isSome then throw .tooManyValues
    else s.flag option

/-- options by their letters, one after the other -/
def short (options : List OptionName) : Scan → List Char → Except UsageError Scan
  | s, [] => return s
  | s, c :: letters =>
    match OptionName.ofLetter? options c with
    | none => throw .unknownArgument
    | some option => do short options (← s.flag option) letters

/-- one argument of a level; one that fits nowhere is the error `stray` -/
def take (options : List OptionName) (stray : UsageError) (s : Scan) (argument : String) :
    Except UsageError Scan :=
  if s.escaped then throw stray
  else match Argument.ofText argument with
    | .escape => return { s with escaped := true }
    | .long name value => s.long options name value
    | .short letters => s.short options letters
    | .plain value =>
      if s.isWaiting then
        return { s with pending := s.pending.map fun p => { p with value := some value } }
      else throw stray

end Scan

/-! ## the whole line -/

/-- what a subcommand was given behind its name -/
def Subcommand.given (c : Subcommand) (arguments : List String) : Except UsageError Given := do
  let options := c.options ++ OptionName.common
  let s ← arguments.foldlM (Scan.take options .unknownArgument) .start
  let given ← s.settle
  if (given.command? c).isNone then throw .missingArgument
  return given

namespace Invocation

/-- the answer to a request for help on a subcommand, by name -/
def helpOn : List String → UsageError
  | [] => .help
  | [name] =>
    if name = "help" ∨ (Subcommand.ofText? name).isSome then .help else .invalidSubcommand
  | _ => .invalidSubcommand

/-- a plain argument before any subcommand: behind `--` a subcommand has no meaning -/
def stray (s : Scan) (argument : String) : UsageError :=
  if s.escaped && (argument = "help" || (Subcommand.ofText? argument).isSome) then .unknownArgument
  else .invalidSubcommand

/-- a subcommand with what was given behind and before it -/
def ofGiven (c : Subcommand) (inner outer : Given) : Except UsageError Invocation :=
  let g := inner.withOuter outer
  match g.command? c with
  | none => throw .missingArgument
  | some command => return ⟨command, g.data, g.config, g.save, g.verbose, g.quiet⟩

/-- the arguments that are left, from a level before the subcommand -/
def read (s : Scan) : List String → Except UsageError Invocation
  | [] => do
    let given ← s.settle
    throw (if given = .nothing then .helpOnMissing else .missingSubcommand)
  | argument :: arguments => do
    if s.escaped || s.isWaiting then
      read (← s.take OptionName.leading (stray s argument) argument) arguments
    else if argument = "help" then throw (helpOn arguments)
    else match Subcommand.ofText? argument with
      | some c =>
        let inner ← c.given arguments
        ofGiven c inner (← s.settle)
      | none => read (← s.take OptionName.leading (stray s argument) argument) arguments

/-- the invocation that the arguments of the program stand for -/
def ofArguments (arguments : List String) : Except UsageError Invocation := read .start arguments

end Invocation

end CourseCompletion
