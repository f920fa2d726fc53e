import CourseCompletion.Decimal.Binary64

/-!
# Values of TOML

A `Toml` value as it is written: the entries of a table between braces keep their dotted keys, and
a date or a time is kept as text.  A document is a list of statements: entries, and headers that
open a table for the entries behind them.
-/

namespace CourseCompletion

/-- A value of TOML without parts. -/
inductive Toml.Scalar where
  | text (s : List Char)
  | integer (n : Int)
  | float (x : Binary64)
  | boolean (b : Bool)
  | moment (written : List Char)

inductive Toml where
  | scalar (s : Toml.Scalar)
  | list (items : List Toml)
  | table (entries : List (List (List Char) × Toml))

namespace Toml

/-- A key with its parts between dots. -/
abbrev Path := List (List Char)

inductive Statement where
  | entry (path : Path) (value : Toml)
  | header (path : Path)
  | arrayHeader (path : Path)

end Toml

end CourseCompletion
