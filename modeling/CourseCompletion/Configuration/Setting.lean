import CourseCompletion.Decimal.Shortest
import CourseCompletion.Text.Lower
import CourseCompletion.Toml.Document

/-!
# Settings

What a file or the environment says, before it becomes a configuration: a list of names with
values, of which the last one of a name counts.  A table is merged into what a name has already, so
one without entries does not count where there is anything else.

* `Setting.ofKey`   the name of a key in small letters, and whether the key names a part only;
* `Setting.ofEntries`   what a file says;
* `Setting.ofVariable?`   what a variable of the environment says, if it is one of ours;
* `Setting.chars?`, `Setting.flag?`   a value as text and as a yes or no;
* `Setting.last?`   the value of a name.
-/

namespace CourseCompletion

/-- A value of a setting: a plain one, a table without entries, or one with parts, which is kept
without them, since no setting has any. -/
inductive Setting where
  | text (s : List Char)
  | integer (n : Int)
  | float (x : Binary64)
  | boolean (b : Bool)
  | empty
  | compound

namespace Setting

/-! ## names -/

/-- a character of a name in a path -/
def isNameChar (c : Char) : Bool := c.isAlphanum || c = '_' || c = '-' || c = ' '

/-- what follows a number of 64 bits and the bracket that closes it -/
def subscript? (s : List Char) : Option (List Char) := do
  let (negative, r) := match Toml.skipBlanks s with
    | '-' :: r => (true, r)
    | r => (false, r)
  let (ds, r) := digitsOf r
  guard (ds ≠ [] ∧ fitsSigned64 (if negative then -(digitsValue ds : Int) else digitsValue ds))
  match Toml.skipBlanks r with
  | ']' :: r => some r
  | _ => none

/-- what follows a name in a path goes on to its end: further names behind points, and numbers in
brackets -/
def isPathEnd : Nat → List Char → Bool
  | _, [] => true
  | 0, _ => false
  | n + 1, '.' :: r =>
    r.takeWhile isNameChar ≠ [] && isPathEnd n (r.dropWhile isNameChar)
  | n + 1, '[' :: r =>
    match subscript? r with
    | some r => isPathEnd n r
    | none => false
  | _, _ => false

/-- the name of a setting, and whether the key names only a part of it; a key is read in small
letters, and one that is no path is a name as a whole -/
def ofKey (key : List Char) : List Char × Bool :=
  let key := lower key
  let first := key.takeWhile isNameChar
  let rest := key.dropWhile isNameChar
  if rest ≠ [] ∧ first ≠ [] ∧ isPathEnd rest.length rest then (first, true) else (key, false)

def named (key : List Char) (value : Setting) : List Char × Setting :=
  let (name, isPart) := ofKey key
  (name, if isPart then .compound else value)

/-! ## sources -/

/-- what a file says under a name -/
def ofNode : Toml.Node → Setting
  | .scalar (.text s) => .text s
  | .scalar (.integer n) => .integer n
  | .scalar (.float x) => .float x
  | .scalar (.boolean b) => .boolean b
  | .scalar (.moment written) => .text written
  | .braced [] | .table _ [] => .empty
  | _ => .compound

def ofEntries (entries : Toml.Entries) : List (List Char × Setting) :=
  entries.map fun e => named e.1 (ofNode e.2)

/-- a value of the environment: a yes or no, a number, or else text -/
def ofValue (value : List Char) : Setting :=
  let word := lower value
  if word = ['t', 'r', 'u', 'e'] then .boolean true
  else if word = ['f', 'a', 'l', 's', 'e'] then .boolean false
  else match signed64? value with
    | some n => .integer n
    | none => match Binary64.ofChars? value with
      | some x => .float x
      | none => .text value

/-- a key with a point for every two underscores -/
def withPoints : List Char → List Char
  | '_' :: '_' :: r => '.' :: withPoints r
  | c :: r => c :: withPoints r
  | [] => []

/-- the text behind a beginning that it must have -/
def behind? : (beginning text : List Char) → Option (List Char)
  | [], s => some s
  | c :: cs, d :: s => if c = d then behind? cs s else none
  | _ :: _, [] => none

/-- the setting of a variable, if its name begins with ours and an underscore, in any case -/
def ofVariable? (ours : List Char) (name value : List Char) : Option (List Char × Setting) :=
  (behind? (lower (ours ++ ['_'])) (lower name)).map fun key =>
    named (withPoints key) (ofValue value)

/-! ## values -/

/-- a value as text; a table and one with parts have none -/
def chars? : Setting → Option (List Char)
  | text s => some s
  | integer n => some (decimalInt n)
  | float x => some x.chars
  | boolean true => some ['t', 'r', 'u', 'e']
  | boolean false => some ['f', 'a', 'l', 's', 'e']
  | empty | compound => none

def yes : List String := ["1", "true", "on", "yes"]

def no : List String := ["0", "false", "off", "no"]

/-- a value as a yes or no: a number other than zero, or a word in any case -/
def flag? : Setting → Option Bool
  | text s =>
    let word := String.ofList (lower s)
    if word ∈ yes then some true else if word ∈ no then some false else none
  | integer n => some (n ≠ 0)
  | float x => some x.isNonzero
  | boolean b => some b
  | empty | compound => none

/-- the value is more than a table without entries -/
def counts : Setting → Bool
  | empty => false
  | _ => true

/-- the value of a name among settings: the last one that counts, or else an empty table -/
def last? (name : String) (settings : List (List Char × Setting)) : Option Setting :=
  let values := (settings.filter (·.1 = name.toList)).map (·.2)
  values.reverse.find? counts <|> values.head?

end Setting

end CourseCompletion
