import CourseCompletion.Calendar
import CourseCompletion.Instant
import CourseCompletion.Text.Blank
import CourseCompletion.Text.Digits

/-!
# Instants as text

`Instant.text` writes an instant as `YYYY-MM-DDTHH:MM:SSZ`, with a fraction of 3, 6 or 9 digits
where the second is not whole, and `Instant.ofText?` reads such a text back.  The reader allows
more than the writer uses: white space before each field, fields of one digit, a space or a small
letter between date and time, and an offset from UTC.

A year outside `0` to `9999` has a sign.  Second `60` is a leap second: it is read as second `59`
with a billion nanoseconds on top, and written as `60` again.  A leap second after any other second
is written as the second that follows, so its text reads as another instant.
-/

namespace CourseCompletion

namespace Instant

/-! ## writing -/

/-- a year: four digits, or a sign and at least four digits -/
def yearText (year : Int) : List Char :=
  if 0 ≤ year ∧ year ≤ 9999 then padded 4 year.toNat
  else (if year < 0 then '-' else '+') :: padded 4 year.natAbs

/-- a fraction of a second in the fewest of 0, 3, 6 or 9 digits that lose nothing -/
def fractionText (nanos : Nat) : List Char :=
  if nanos = 0 then []
  else if nanos % 1000000 = 0 then '.' :: padded 3 (nanos / 1000000)
  else if nanos % 1000 = 0 then '.' :: padded 6 (nanos / 1000)
  else '.' :: padded 9 nanos

/-- an instant in UTC -/
def chars (t : Instant) : List Char :=
  let date := Date.ofDayNumber (t.seconds / 86400)
  let inDay := (t.seconds % 86400).toNat
  let leap := 1000000000 ≤ t.nanos
  yearText date.year ++ '-' :: padded 2 date.month ++ '-' :: padded 2 date.day ++
  'T' :: padded 2 (inDay / 3600) ++ ':' :: padded 2 (inDay / 60 % 60) ++
  ':' :: padded 2 (if leap then inDay % 60 + 1 else inDay % 60) ++
  fractionText (if leap then t.nanos - 1000000000 else t.nanos) ++ ['Z']

/-- the text of an instant in UTC -/
def text (t : Instant) : String := String.ofList t.chars

/-! ## reading

Each reader takes the text that is left and gives what it read with the text after it. -/

/-- a character that must come next, after white space -/
def symbol (c : Char) (s : List Char) : Option (List Char) :=
  match dropBlank s with
  | d :: r => if d = c then some r else none
  | [] => none

/-- a row of digits that is not empty, as a number -/
def numeral (read : List Char × List Char) : Option (Nat × List Char) :=
  if read.1 = [] then none else some (digitsValue read.1, read.2)

/-- a year: up to four digits, or a sign and any number of them -/
def year? (s : List Char) : Option (Int × List Char) :=
  match dropBlank s with
  | '-' :: r => (numeral (digitsOf r)).map fun (n, r) => (-(n : Int), r)
  | '+' :: r => (numeral (digitsOf r)).map fun (n, r) => ((n : Int), r)
  | r => (numeral (digitsUpTo 4 r)).map fun (n, r) => ((n : Int), r)

/-- a month, day, hour, minute or second: one or two digits -/
def part? (s : List Char) : Option (Nat × List Char) :=
  numeral (digitsUpTo 2 (dropBlank s))

/-- what stands between date and time -/
def separator? : List Char → Option (List Char)
  | c :: r => if c = 'T' ∨ c = 't' ∨ c = ' ' then some r else none
  | [] => none

/-- a fraction of a second, in nanoseconds; digits after the ninth do not count -/
def fraction? : List Char → Option (Nat × List Char)
  | '.' :: r =>
    let (ds, r) := digitsOf r
    if ds = [] then none
    else
      let ds := ds.take 9
      some (digitsValue ds * Nat.pow 10 (9 - ds.length), r)
  | s => some (0, s)

/-- two digits, the first of them below `limit` -/
def twoDigits? (limit : Nat) : List Char → Option (Nat × List Char)
  | a :: b :: r =>
    if a.isDigit ∧ b.isDigit ∧ digitsValue [a] < limit then some (digitsValue [a, b], r) else none
  | _ => none

/-- the hours and minutes of an offset, in minutes -/
def offsetSize? (s : List Char) : Option (Int × List Char) := do
  let (hours, s) ← twoDigits? 10 s
  let (minutes, s) ← twoDigits? 6 (s.dropWhile fun c => c = ':' ∨ isBlank c)
  guard (hours < 24)
  some (hours * 60 + minutes, s)

/-- the minutes that a clock runs ahead of UTC -/
def offset? (s : List Char) : Option (Int × List Char) :=
  match s with
  | '+' :: r => offsetSize? r
  | '-' :: r => (offsetSize? r).map fun (n, r) => (-n, r)
  | '\u2212' :: r => (offsetSize? r).map fun (n, r) => (-n, r)
  | c :: r =>
    if c = 'Z' ∨ c = 'z' then some (0, r)
    else if (s.take 3).map Char.toLower = ['u', 't', 'c'] then some (0, s.drop 3)
    else none
  | [] => none

/-- the instant of a local date and time with its offset, where all of them exist -/
def ofFields? (date : Date) (hour minute second nanos : Nat) (offset : Int) : Option Instant :=
  if date.Exists ∧ -262143 ≤ date.year ∧ date.year ≤ 262142 ∧
      hour < 24 ∧ minute < 60 ∧ second ≤ 60 then
    let leap := second = 60
    ofParts?
      (date.dayNumber * 86400 + (hour * 3600 + minute * 60 + (if leap then 59 else second) : Nat)
        - offset * 60)
      (if leap then nanos + 1000000000 else nanos)
  else none

/-- the instant that a text stands for from end to end -/
def ofChars? (s : List Char) : Option Instant := do
  let (year, s) ← year? s
  let s ← symbol '-' s
  let (month, s) ← part? s
  let s ← symbol '-' s
  let (day, s) ← part? s
  let s ← separator? s
  let (hour, s) ← part? s
  let s ← symbol ':' s
  let (minute, s) ← part? s
  let s ← symbol ':' s
  let (second, s) ← part? s
  let (nanos, s) ← fraction? s
  let (offset, s) ← offset? (dropBlank s)
  guard (dropBlank s = [])
  ofFields? ⟨year, month, day⟩ hour minute second nanos offset

/-- the instant that a text stands for -/
def ofText? (s : String) : Option Instant := ofChars? s.toList

example : ofText? "1970-01-01T00:00:01Z" = ofSeconds? 1 := by decide +kernel
example : (ofText? "2016-12-31 23:59:60.5z").map text = some "2016-12-31T23:59:60.500Z" := by
  decide +kernel

end Instant

end CourseCompletion
