import CourseCompletion.Configuration.Basic
import CourseCompletion.Configuration.Setting

/-!
# The file of the configuration

`Configuration.load` reads a configuration from the text of a file, if there is one, and from the
variables of the environment, which come first; what neither says has its default.
`Configuration.fileText` is the text of a file that says all of a configuration.
-/

namespace CourseCompletion

/-- The variables of the environment, with their values. -/
abbrev Variables := List (String × String)

def Variables.value? (vs : Variables) (name : String) : Option String :=
  (vs.reverse.find? (·.1 = name)).map (·.2)

namespace Configuration

/-! ## reading -/

def textOf (setting : Setting) : Except ConfigurationError String :=
  match setting.chars? with
  | some s => return String.ofList s
  | none => throw (.unreadable "a setting has the wrong type")

def flagOf (setting : Setting) : Except ConfigurationError Bool :=
  match setting.flag? with
  | some b => return b
  | none => throw (.unreadable "a setting has the wrong type")

/-- the configuration of settings, of which later ones come first -/
def ofSettings (settings : List (List Char × Setting)) :
    Except ConfigurationError Configuration := do
  let logLevel ← match Setting.last? "log_level" settings with
    | some s => textOf s
    | none => pure default.logLevel
  let dataFile ← match Setting.last? "data_file" settings with
    | some s => some <$> textOf s
    | none => pure default.dataFile
  let optimisticLocking ← match Setting.last? "optimistic_locking" settings with
    | some s => flagOf s
    | none => pure default.optimisticLocking
  return { logLevel, dataFile, optimisticLocking }

/-- the settings of the text of a file; no text says nothing -/
def fileSettings : Option String → Except ConfigurationError (List (List Char × Setting))
  | none => return []
  | some text =>
    match Toml.document? text.toList with
    | some entries => return Setting.ofEntries entries
    | none => throw (.unreadable "the file is not valid TOML")

/-- the settings of the variables whose names begin with ours -/
def variableSettings (ours : String) (bindings : Variables) :
    List (List Char × Setting) :=
  bindings.filterMap fun v => Setting.ofVariable? ours.toList v.1.toList v.2.toList

/-- the configuration of a file and of the variables whose names begin with ours -/
def load (text : Option String) (ours : String) (bindings : Variables) :
    Except ConfigurationError Configuration := do
  ofSettings ((← fileSettings text) ++ variableSettings ours bindings)

/-! ## writing -/

def line (name : String) (value : List Char) : List Char :=
  name.toList ++ ' ' :: '=' :: ' ' :: value ++ ['\n']

/-- the text of a file that says all of a configuration -/
def fileChars (c : Configuration) : List Char :=
  line "log_level" (Toml.string c.logLevel.toList) ++
  (match c.dataFile with
    | some path => line "data_file" (Toml.string path.toList)
    | none => []) ++
  line "optimistic_locking" (if c.optimisticLocking then "true".toList else "false".toList)

def fileText (c : Configuration) : String := String.ofList c.fileChars

end Configuration

end CourseCompletion
