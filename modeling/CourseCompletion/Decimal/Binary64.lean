import CourseCompletion.Text.Digits

/-!
# Floating point numbers of 64 bits

A `Binary64` is a multiple `mantissa * 2 ^ exponent` with `mantissa < 2 ^ 53`, or one of the three
values that are none.  `Binary64.ofDecimal` rounds a decimal to the nearest of them, a tie going to
the even mantissa, in exact arithmetic on `Nat`; `Binary64.ofChars?` reads a text with a point, an
exponent or a word.

`Decimal.exceeds` says when a decimal is too large to round to a finite value.
-/

namespace CourseCompletion

inductive Binary64 where
  | finite (negative : Bool) (mantissa : Nat) (exponent : Int)
  | infinite (negative : Bool)
  | nan
deriving DecidableEq

/-- The decimal `digits * 10 ^ exponent`, with a sign. -/
structure Decimal where
  negative : Bool
  digits : Nat
  exponent : Int
deriving DecidableEq

/-- the power `10 ^ n` for a non-negative `n`, else `1` -/
def tenTo (n : Int) : Nat := Nat.pow 10 n.toNat

/-- the power `2 ^ n` for a non-negative `n`, else `1` -/
def twoTo (n : Int) : Nat := Nat.pow 2 n.toNat

namespace Decimal

/-- digits before the point: the decimal lies below the power of ten that this counts, and not
below the one before -/
def magnitude (d : Decimal) : Int := (decimal d.digits).length + d.exponent

/-- the size of a decimal as a quotient of two numbers -/
def quotient (d : Decimal) : Nat × Nat := (d.digits * tenTo d.exponent, tenTo (-d.exponent))

/-- too large to round to a finite value: at least half a step above the largest one -/
def exceeds (d : Decimal) : Bool :=
  d.digits != 0 && (310 < d.magnitude ||
    (308 < d.magnitude && (twoTo 54 - 1) * twoTo 970 * d.quotient.2 ≤ d.quotient.1))

end Decimal

/-- a quotient to the nearest whole number, a tie to the even one -/
def roundQuotient (num den : Nat) : Nat :=
  let q := num / den
  let twice := 2 * (num % den)
  if den < twice ∨ twice = den ∧ q % 2 = 1 then q + 1 else q

namespace Binary64

/-- the value nearest to a decimal, a tie to the even mantissa -/
def ofDecimal (d : Decimal) : Binary64 :=
  if d.exceeds then .infinite d.negative
  else if d.digits == 0 || d.magnitude < -330 then .finite d.negative 0 (-1074)
  else
    let (num, den) := d.quotient
    let estimate : Int := Nat.log2 num - Nat.log2 den
    let top := if num * twoTo (-estimate) < den * twoTo estimate then estimate - 1 else estimate
    let exponent := max (top - 52) (-1074)
    let mantissa := roundQuotient (num * twoTo (-exponent)) (den * twoTo exponent)
    if mantissa = twoTo 53 then .finite d.negative (twoTo 52) (exponent + 1)
    else .finite d.negative mantissa exponent

/-- the exact product of two values rounds to none that is finite: it is at least half a step above
the largest one -/
def productExceeds : Binary64 → Binary64 → Bool
  | .finite _ m e, .finite _ n f =>
    (twoTo 54 - 1) * twoTo 970 * twoTo (-(e + f)) ≤ m * n * twoTo (e + f)
  | _, _ => true

def isNonzero : Binary64 → Bool
  | .finite _ mantissa _ => mantissa ≠ 0
  | _ => true

/-! ## reading -/

/-- the exponent that ends a number: absent, or a mark, an optional sign and digits -/
def exponentPart? : List Char → Option Int
  | [] => some 0
  | c :: r =>
    if c = 'e' ∨ c = 'E' then
      match r with
      | '-' :: ds => if ds ≠ [] ∧ ds.all Char.isDigit then some (-(digitsValue ds : Int)) else none
      | '+' :: ds => if ds ≠ [] ∧ ds.all Char.isDigit then some (digitsValue ds) else none
      | ds => if ds ≠ [] ∧ ds.all Char.isDigit then some (digitsValue ds) else none
    else none

/-- a decimal: digits with an optional point before, after or among them, and an exponent -/
def decimal? (negative : Bool) (s : List Char) : Option Decimal :=
  let (whole, r) := digitsOf s
  let (places, r) := match r with
    | '.' :: r => digitsOf r
    | r => ([], r)
  if whole = [] ∧ places = [] then none
  else (exponentPart? r).map fun e =>
    ⟨negative, digitsValue (whole ++ places), e - places.length⟩

/-- a decimal or one of the words for the other values, after an optional sign -/
def ofChars? (s : List Char) : Option Binary64 :=
  let (negative, r) := match s with
    | '-' :: r => (true, r)
    | '+' :: r => (false, r)
    | r => (false, r)
  let word := String.ofList (r.map Char.toLower)
  if word = "inf" ∨ word = "infinity" then some (.infinite negative)
  else if word = "nan" then some .nan
  else (decimal? negative r).map ofDecimal

example : ofChars? ['1', '.', '5'] = some (.finite false (3 * twoTo 51) (-52)) := by decide +kernel
example : ofChars? ['.'] = none := by decide +kernel

end Binary64

end CourseCompletion
