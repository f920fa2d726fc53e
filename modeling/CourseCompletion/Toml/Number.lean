import CourseCompletion.Text.Hex
import CourseCompletion.Toml.Basic

/-!
# Numbers of TOML

Integers of 64 bits, in base 10 with a sign or in base 16, 8 or 2 without one, and floats.  Single
underscores may stand between digits.  A float is too large if it has no sign and rounds to
infinity; infinity can be written as a word.
-/

namespace CourseCompletion.Toml

/-! ## digits -/

/-- a digit of base 16, or of a smaller base -/
def isDigitOf (base : Nat) (c : Char) : Bool := (hexValue? c).any (· < base)

/-- digits after a first one, with single underscores between them -/
def moreDigits (digit : Char → Bool) : List Char → List Char × List Char
  | '_' :: c :: r =>
    if digit c then (c :: (moreDigits digit r).1, (moreDigits digit r).2) else ([], '_' :: c :: r)
  | c :: r =>
    if digit c then (c :: (moreDigits digit r).1, (moreDigits digit r).2) else ([], c :: r)
  | [] => ([], [])

/-- at least one digit, without the underscores between them -/
def digits? (digit : Char → Bool) : List Char → Option (List Char × List Char)
  | c :: r =>
    if digit c then some (c :: (moreDigits digit r).1, (moreDigits digit r).2) else none
  | [] => none

/-- the value of digits in a base -/
def valueIn (base : Nat) (ds : List Char) : Nat :=
  ds.foldl (fun n c => n * base + (hexValue? c).getD 0) 0

/-! ## integers -/

/-- a sign, if there is one: whether it is a minus -/
def sign : List Char → Bool × List Char
  | '-' :: r => (true, r)
  | '+' :: r => (false, r)
  | s => (false, s)

/-- the digits before a point: one zero, or digits that do not start with a zero -/
def whole? : List Char → Option (List Char × List Char)
  | '0' :: r => some (['0'], r)
  | s => digits? Char.isDigit s

/-- an integer if it has 64 bits -/
def bounded? (n : Int) (r : List Char) : Option (Scalar × List Char) :=
  if fitsSigned64 n then some (.integer n, r) else none

/-- digits of a base behind its mark -/
def inBase? (base : Nat) (s : List Char) : Option (Scalar × List Char) := do
  let (ds, r) ← digits? (isDigitOf base) s
  bounded? (valueIn base ds) r

def integer? : List Char → Option (Scalar × List Char)
  | '0' :: 'x' :: r => inBase? 16 r
  | '0' :: 'o' :: r => inBase? 8 r
  | '0' :: 'b' :: r => inBase? 2 r
  | s => do
    let (negative, r) := sign s
    let (ds, r) ← whole? r
    bounded? (if negative then -(digitsValue ds : Int) else digitsValue ds) r

/-! ## floats -/

/-- the places after a point, with the point; none if there is no point -/
def places? : List Char → Option (List Char × List Char)
  | '.' :: r => do
    let (ds, r) ← digits? Char.isDigit r
    some ('.' :: ds, r)
  | s => some ([], s)

/-- an exponent, with its mark and sign; none if there is no mark -/
def power? : List Char → Option (List Char × List Char)
  | [] => some ([], [])
  | c :: r =>
    if c = 'e' ∨ c = 'E' then do
      let (negative, r) := sign r
      let (ds, r) ← digits? Char.isDigit r
      some ('e' :: (if negative then '-' :: ds else ds), r)
    else some ([], c :: r)

def word? (negative : Bool) : List Char → Option (Scalar × List Char)
  | 'i' :: 'n' :: 'f' :: r => some (.float (.infinite negative), r)
  | 'n' :: 'a' :: 'n' :: r => some (.float .nan, r)
  | _ => none

/-- a float: digits with a point or an exponent or both, or a word -/
def float? (s : List Char) : Option (Scalar × List Char) :=
  let (negative, r) := sign s
  match whole? r with
  | none => word? negative r
  | some (whole, r) => do
    let (places, r) ← places? r
    let (power, r) ← power? r
    guard (places ≠ [] ∨ power ≠ [])
    let x := Binary64.ofDecimal (← Binary64.decimal? negative (whole ++ places ++ power))
    guard (x ≠ .infinite false)
    some (.float x, r)

end CourseCompletion.Toml
