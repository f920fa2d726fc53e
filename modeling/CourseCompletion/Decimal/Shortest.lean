import CourseCompletion.Decimal.Binary64

/-!
# The shortest decimal that reads back

A finite `Binary64` is the value nearest to every decimal of an interval around it.
`Binary64.shortest` looks for a decimal of that interval with as few digits as possible: on the
grid of 1, 2, … up to 17 digits it tests the two neighbours of the value, and of two that lie in
the interval it takes the nearer, of two equally near the larger.

`Binary64.chars` writes the digits out in full, without an exponent.
-/

namespace CourseCompletion

/-- the decimal `a * 10 ^ e` is below `b * 2 ^ f` -/
def scaledLt (a : Nat) (e : Int) (b : Nat) (f : Int) : Bool :=
  a * tenTo e * twoTo (-f) < b * twoTo f * tenTo (-e)

/-- the decimal `a * 10 ^ e` is `b * 2 ^ f` -/
def scaledEq (a : Nat) (e : Int) (b : Nat) (f : Int) : Bool :=
  a * tenTo e * twoTo (-f) = b * twoTo f * tenTo (-e)

namespace Binary64

/-- The decimal `n * 10 ^ e` reads back as `mantissa * 2 ^ exponent`: it lies between the
midpoints to the two neighbours, which themselves go to the even mantissa. -/
def readsBack (mantissa : Nat) (exponent : Int) (n : Nat) (e : Int) : Bool :=
  let below := if mantissa = twoTo 52 ∧ -1074 < exponent then 4 * mantissa - 1 else 4 * mantissa - 2
  let above := 4 * mantissa + 2
  let even := mantissa % 2 = 0
  (!scaledLt n e below (exponent - 2) && scaledLt n e above (exponent - 2) &&
    (even || !scaledEq n e below (exponent - 2))) ||
  (even && scaledEq n e above (exponent - 2))

/-- the largest number of the grid `10 ^ e` that is not above `mantissa * 2 ^ exponent` -/
def gridFloor (mantissa : Nat) (exponent e : Int) : Nat :=
  mantissa * twoTo exponent * tenTo (-e) / (twoTo (-exponent) * tenTo e)

/-- the digits before the point of `mantissa * 2 ^ exponent`, less one -/
def topPlace (mantissa : Nat) (exponent : Int) : Int :=
  (decimal (gridFloor mantissa exponent (-350))).length - 351

/-- a decimal with at most `count` fewer than 18 digits that reads back, with its grid -/
def shortestFrom (mantissa : Nat) (exponent : Int) : Nat → Nat × Int
  | 0 => (gridFloor mantissa exponent (topPlace mantissa exponent - 16),
      topPlace mantissa exponent - 16)
  | count + 1 =>
    let e := topPlace mantissa exponent - (16 - count)
    let n := gridFloor mantissa exponent e
    let low := readsBack mantissa exponent n e
    let high := readsBack mantissa exponent (n + 1) e
    if low && high then
      (if scaledLt (2 * n + 1) e (2 * mantissa) exponent ||
          scaledEq (2 * n + 1) e (2 * mantissa) exponent then n + 1 else n, e)
    else if low then (n, e)
    else if high then (n + 1, e)
    else shortestFrom mantissa exponent count

/-- the number `n * 10 ^ e`, with `n` and `e` of a decimal that reads back and has fewest digits -/
def shortest (mantissa : Nat) (exponent : Int) : Nat × Int :=
  if mantissa = 0 then (0, 0) else shortestFrom mantissa exponent 17

/-- the decimal `n * 10 ^ e` in full, without zeros at the end of a fraction -/
def positional (n : Nat) (e : Int) : List Char :=
  if 0 ≤ e then decimal (n * tenTo e)
  else
    let ds := padded ((-e).toNat + 1) n
    let whole := ds.take (ds.length - (-e).toNat)
    let places := ((ds.drop (ds.length - (-e).toNat)).reverse.dropWhile (· = '0')).reverse
    if places = [] then whole else whole ++ '.' :: places

/-- a value as a number in full, or as a word -/
def chars : Binary64 → List Char
  | .finite negative mantissa exponent =>
    let (n, e) := shortest mantissa exponent
    (if negative then ['-'] else []) ++ positional n e
  | .infinite negative => if negative then ['-', 'i', 'n', 'f'] else ['i', 'n', 'f']
  | .nan => ['N', 'a', 'N']

example : (ofChars? ['0', '.', '1']).map chars = some ['0', '.', '1'] := by decide +kernel
example : (ofChars? ['1', 'e', '5']).map chars = some ['1', '0', '0', '0', '0', '0'] := by
  decide +kernel

end Binary64

end CourseCompletion
