import CourseCompletion.Instant.Text
import CourseCompletion.Json.Basic

/-!
# Reading values out of JSON

The pieces from which the JSON form of every type is read.  A reader gives `none` where the form
does not fit.

* `signed?`, `unsigned?`, `text?`, `flag?`, `instant?`, `listOf?`   plain values;
* `name?`                 one of several alternatives, as a name or an object with one member;
* `Source.name?`, `Source.tag?`   the same out of a value that was read as a whole before;
* `slots?`                the fields of a structure, out of an object or a list;
* `required`, `optional?`, `orElse`   what a missing field means.

Integers have 64 bits; `signed` and `unsigned` write what these hold of a number that was counted
without a bound.  A structure is an object, whose other members do not matter, or the list of
its fields in their order; a list may end early after `least` fields.
-/

namespace CourseCompletion

namespace Json

/-! ## plain values -/

/-- an integer of 64 bits with a sign -/
def signed? : Json → Option Int
  | .integer n => if fitsSigned64 n then some n else none
  | _ => none

/-- an integer of 64 bits without a sign -/
def unsigned? : Json → Option Nat
  | .integer n => if fitsUnsigned64 n then some n.toNat else none
  | _ => none

/-- a number in 64 bits with a sign -/
def signed (n : Int) : Json := .integer (wrapSigned64 n)

/-- a number in 64 bits without a sign -/
def unsigned (n : Nat) : Json := nat (wrapUnsigned64 n)

def text? : Json → Option String
  | .string s => some s
  | _ => none

def flag? : Json → Option Bool
  | .bool b => some b
  | _ => none

/-- an instant, as text -/
def instant? (j : Json) : Option Instant := j.text?.bind Instant.ofText?

def ofInstant (t : Instant) : Json := .string t.text

def listOf? (read : Json → Option α) : Json → Option (List α)
  | .array items => items.mapM read
  | _ => none

/-! ## alternatives -/

/-- the name of an alternative that holds nothing more -/
def name? : Json → Option String
  | .string s => some s
  | .object [(s, .null)] => some s
  | _ => none

/-- Where a value is read from: the text itself, or a value that was read as a whole and held, since
what it stands for was not known yet. -/
inductive Source where
  | text
  | held
deriving DecidableEq

namespace Source

/-- the name of an alternative without a content; in a held value an empty object is no content -/
def name? (source : Source) (j : Json) : Option String :=
  match source, j with
  | held, .object [(s, .object [])] => some s
  | _, j => j.name?

/-- the name of an alternative at the head of a list; in a held value its place among the names will
do -/
def tag? (source : Source) (names : List String) (j : Json) : Option String :=
  match source, j with
  | held, .integer n => if 0 ≤ n then names[n.toNat]? else none
  | _, j => j.text?

end Source

/-! ## fields -/

/-- the field of a name among members, if it is there; no answer if it is there twice -/
def slot? (members : List (String × Json)) (name : String) : Option (Option Json) :=
  match members.filter (·.1 = name) with
  | [] => some none
  | [m] => some (some m.2)
  | _ => none

/-- the fields of a structure in the order of their names -/
def slots? (names : List String) (least : Nat) : Json → Option (List (Option Json))
  | .object members => names.mapM (slot? members)
  | .array items =>
    if least ≤ items.length ∧ items.length ≤ names.length then
      some (items.map some ++ List.replicate (names.length - items.length) none)
    else none
  | _ => none

/-- a field that must be there -/
def required (read : Json → Option α) (field : Option Json) : Option α := field.bind read

/-- a field that may be missing or `null` -/
def optional? (read : Json → Option α) : Option Json → Option (Option α)
  | none => some none
  | some .null => some none
  | some j => (read j).map some

/-- a field with a value for when it is missing -/
def orElse (read : Json → Option α) (missing : α) : Option Json → Option α
  | none => some missing
  | some j => read j

/-! ## what is written reads back -/

theorem signed?_integer {n : Int} (h : fitsSigned64 n) : signed? (.integer n) = some n := by
  simp [signed?, h]

theorem unsigned?_nat {n : Nat} (h : fitsUnsigned64 n) : unsigned? (nat n) = some n := by
  simp [unsigned?, nat, h]

theorem signed?_signed {n : Int} (h : fitsSigned64 n) : signed? (signed n) = some n := by
  unfold signed
  rw [wrapSigned64_of_fits h, signed?_integer h]

theorem unsigned?_unsigned {n : Nat} (h : fitsUnsigned64 n) : unsigned? (unsigned n) = some n := by
  unfold unsigned
  rw [wrapUnsigned64_of_fits h, unsigned?_nat h]

theorem listOf?_list {read : Json → Option α} {write : α → Json} {xs : List α}
    (h : ∀ x ∈ xs, read (write x) = some x) : listOf? read (list write xs) = some xs := by
  unfold listOf? list
  induction xs with
  | nil => rfl
  | cons x xs ih =>
    have hx := h x (by simp)
    have ihs := ih fun y hy => h y (by simp [hy])
    simp only [List.map_cons, List.mapM_cons, hx]
    simp only [List.mapM_map] at ihs ⊢
    simp [ihs]

end Json

end CourseCompletion
