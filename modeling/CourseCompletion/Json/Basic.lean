import CourseCompletion.Text.Digits

/-!
# JSON values

A `Json` value keeps what a JSON text says as far as it matters here: integers of any size,
members of an object in their order and as often as they are written.

* `fraction`      a number with a point or an exponent, or `-0`: no integer, whatever its value;
* `unreadable`    legal JSON that stands for no value: a string, or an object with a key, that
                  holds half of a surrogate pair, a number beyond every float, or a list or an
                  object inside too many others.  It can be skipped, but not read.

`Json.isReadable` says that a value holds no such part.
-/

namespace CourseCompletion

inductive Json where
  | null
  | bool (value : Bool)
  | integer (value : Int)
  | fraction (written : List Char)
  | string (value : String)
  | array (items : List Json)
  | object (members : List (String × Json))
  | unreadable

namespace Json

mutual

/-- no part of the value is unreadable -/
def isReadable : Json → Bool
  | .array items => itemsReadable items
  | .object members => membersReadable members
  | .unreadable => false
  | _ => true

def itemsReadable : List Json → Bool
  | [] => true
  | item :: items => isReadable item && itemsReadable items

def membersReadable : List (String × Json) → Bool
  | [] => true
  | (_, value) :: members => isReadable value && membersReadable members

end

/-- a member put into its place among members in the order of their keys -/
def insertMember (key : String) (value : Json) : List (String × Json) → List (String × Json)
  | [] => [(key, value)]
  | (k, v) :: members =>
    if key < k then (key, value) :: (k, v) :: members else (k, v) :: insertMember key value members

mutual

/-- the same value with the members of every object in the order of their keys -/
def sorted : Json → Json
  | .array items => .array (sortedItems items)
  | .object members => .object (sortedMembers members)
  | value => value

def sortedItems : List Json → List Json
  | [] => []
  | item :: items => sorted item :: sortedItems items

def sortedMembers : List (String × Json) → List (String × Json)
  | [] => []
  | (key, value) :: members => insertMember key (sorted value) (sortedMembers members)

end

/-- a natural number -/
def nat (n : Nat) : Json := .integer n

/-- a value or `null` -/
def optional (write : α → Json) : Option α → Json
  | some x => write x
  | none => .null

/-- a list of values -/
def list (write : α → Json) (xs : List α) : Json := .array (xs.map write)

end Json

end CourseCompletion
