import CourseCompletion.Json.Basic
import CourseCompletion.Text.Hex

/-!
# JSON text

`Json.compact` writes a value on one line, and `Json.pretty` over several, two spaces to a level.
Both write an empty list as `[]` and an empty object as two braces with nothing between, and
escape in strings only the quote, the backslash and the characters below the space.
-/

namespace CourseCompletion

namespace Json

/-! ## strings -/

/-- a character as it stands in a string -/
def escaped (c : Char) : List Char :=
  if c = '"' then ['\\', '"']
  else if c = '\\' then ['\\', '\\']
  else if c = '\x08' then ['\\', 'b']
  else if c = '\t' then ['\\', 't']
  else if c = '\n' then ['\\', 'n']
  else if c = '\x0c' then ['\\', 'f']
  else if c = '\r' then ['\\', 'r']
  else if c.toNat < 32 then
    '\\' :: 'u' :: hexChars 4 c.toNat
  else [c]

/-- a text as a string -/
def quoted (s : List Char) : List Char := '"' :: s.flatMap escaped ++ ['"']

/-! ## one line -/

mutual

def compactChars : Json → List Char
  | .null => "null".toList
  | .bool true => "true".toList
  | .bool false => "false".toList
  | .integer n => decimalInt n
  | .fraction written => written
  | .string s => quoted s.toList
  | .array items => '[' :: compactItems items
  | .object members => '\x7b' :: compactMembers members
  | .unreadable => "null".toList

/-- the items of a list up to the closing bracket -/
def compactItems : List Json → List Char
  | [] => [']']
  | [item] => compactChars item ++ [']']
  | item :: items => compactChars item ++ ',' :: compactItems items

/-- the members of an object up to the closing brace -/
def compactMembers : List (String × Json) → List Char
  | [] => ['\x7d']
  | [(key, value)] => quoted key.toList ++ ':' :: compactChars value ++ ['\x7d']
  | (key, value) :: members =>
    quoted key.toList ++ ':' :: compactChars value ++ ',' :: compactMembers members

end

/-- a value on one line -/
def compact (value : Json) : String := String.ofList (compactChars value)

/-! ## several lines -/

/-- the start of a line at a level -/
def newline (level : Nat) : List Char := '\n' :: List.replicate (2 * level) ' '

mutual

/-- a value whose lines stand at a level -/
def prettyChars (level : Nat) : Json → List Char
  | .array items =>
    match items with
    | [] => ['[', ']']
    | _ => '[' :: prettyItems (level + 1) items ++ newline level ++ [']']
  | .object members =>
    match members with
    | [] => ['\x7b', '\x7d']
    | _ => '\x7b' :: prettyMembers (level + 1) members ++ newline level ++ ['\x7d']
  | value => compactChars value

def prettyItems (level : Nat) : List Json → List Char
  | [] => []
  | [item] => newline level ++ prettyChars level item
  | item :: items => newline level ++ prettyChars level item ++ ',' :: prettyItems level items

def prettyMembers (level : Nat) : List (String × Json) → List Char
  | [] => []
  | [(key, value)] => newline level ++ quoted key.toList ++ ':' :: ' ' :: prettyChars level value
  | (key, value) :: members =>
    newline level ++ quoted key.toList ++ ':' :: ' ' :: prettyChars level value ++
      ',' :: prettyMembers level members

end

/-- a value over several lines -/
def pretty (value : Json) : String := String.ofList (prettyChars 0 value)

end Json

end CourseCompletion
