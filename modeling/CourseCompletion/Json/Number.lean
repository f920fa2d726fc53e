import CourseCompletion.Decimal.Binary64
import CourseCompletion.Json.Basic

/-!
# Numbers in JSON text

`Json.number?` reads a number by the grammar of RFC 8259 and no other.

A number that is no integer of 64 bits stands for the product of two floats: of its first digits,
as many as have room in 64 bits, and of the power of ten that the point, the exponent and the
digits left out make.  Both are rounded before they are multiplied, so near the largest float this
is not the float nearest to the number.  A product beyond every float makes the number unreadable.
-/

namespace CourseCompletion

namespace Json

/-! ## the parts of a number -/

/-- the digits before the point: one zero, or digits that do not start with a zero -/
def whole? : List Char → Option (List Char × List Char)
  | '0' :: r => some (['0'], r)
  | s => if (digitsOf s).1 = [] then none else some (digitsOf s)

/-- the digits after the point; none without a point -/
def places? : List Char → Option (List Char × List Char)
  | '.' :: r => if (digitsOf r).1 = [] then none else some (digitsOf r)
  | s => some ([], s)

/-- An exponent as it is written. -/
structure Power where
  mark : Char
  sign : Option Char
  digits : List Char

namespace Power

def value (p : Power) : Int :=
  if p.sign = some '-' then -(digitsValue p.digits : Int) else digitsValue p.digits

def chars (p : Power) : List Char := p.mark :: p.sign.toList ++ p.digits

end Power

/-- the exponent; none without its mark -/
def power? : List Char → Option (Option Power × List Char)
  | [] => some (none, [])
  | c :: r =>
    if c = 'e' ∨ c = 'E' then
      let (sign, r) := match r with
        | '+' :: r => (some '+', r)
        | '-' :: r => (some '-', r)
        | r => (none, r)
      if (digitsOf r).1 = [] then none else some (some ⟨c, sign, (digitsOf r).1⟩, (digitsOf r).2)
    else some (none, c :: r)

/-! ## the size of a number -/

/-- a number with further digits behind it, as long as it has room in 64 bits, and the digits left
out -/
def withDigits : Nat → List Char → Nat × List Char
  | n, [] => (n, [])
  | n, d :: ds =>
    let next := 10 * n + digitsValue [d]
    if fitsUnsigned64 next then withDigits next ds else (n, d :: ds)

/-- the first digits of a number, as many as have room in 64 bits, and the power of ten that they
count -/
def leading (whole places : List Char) (power : Int) : Nat × Int :=
  let (n, left) := withDigits 0 whole
  let (n, unread) := withDigits n places
  (n, left.length - (places.length - unread.length : Nat) + power)

/-- the number is beyond every float: its first digits and their power of ten, each rounded, have a
product that does not round to a finite value -/
def isBeyond (whole places : List Char) (power : Int) : Bool :=
  let (n, e) := leading whole places power
  n != 0 && (308 < e ||
    (0 < e && (Binary64.ofDecimal ⟨false, n, 0⟩).productExceeds (.ofDecimal ⟨false, 1, e⟩)))

/-! ## numbers -/

/-- the value of a number in its parts -/
def ofNumber (negative : Bool) (whole places : List Char) (power : Option Power) : Json :=
  if isBeyond whole places (power.elim 0 Power.value) then .unreadable
  else if places = [] ∧ power.isNone ∧ ¬(negative ∧ whole = ['0']) then
    .integer (if negative then -(digitsValue whole : Int) else digitsValue whole)
  else .fraction ((if negative then ['-'] else []) ++ whole ++
    (if places = [] then [] else '.' :: places) ++ power.elim [] Power.chars)

def number? (s : List Char) : Option (Json × List Char) := do
  let (negative, s) := match s with
    | '-' :: r => (true, r)
    | s => (false, s)
  let (whole, s) ← whole? s
  let (places, s) ← places? s
  let (power, s) ← power? s
  some (ofNumber negative whole places power, s)

/-- the number of seventeen digits behind the largest float is beyond it, but some between these
two, with one digit more, round to a smaller product -/
example : isBeyond "17976931348623157".toList [] 292 = false ∧
    isBeyond "17976931348623158".toList [] 292 = true ∧
    isBeyond "179769313486231583".toList [] 291 = false := by decide +kernel

end Json

end CourseCompletion
