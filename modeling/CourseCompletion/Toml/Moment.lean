import CourseCompletion.Calendar
import CourseCompletion.Text.Digits

/-!
# Dates and times of TOML

`Toml.moment?` reads a date, a time, or both with an optional offset from UTC, and gives its text in
one form: `T` between date and time, no zeros at the end of a fraction of at most nine digits, and
an offset as `Z` or with a sign.

`Toml.momentText?` gives the same form of a text that is a date or a time from end to end.
-/

namespace CourseCompletion.Toml

/-- so many digits, as a number -/
def fixed? (width : Nat) (s : List Char) : Option (Nat × List Char) :=
  let ds := s.take width
  if ds.length = width ∧ ds.all Char.isDigit then some (digitsValue ds, s.drop width) else none

/-- a character that must come next -/
def mark? (c : Char) : List Char → Option (List Char)
  | d :: r => if d = c then some r else none
  | [] => none

def date? (s : List Char) : Option (List Char × List Char) := do
  let (year, s) ← fixed? 4 s
  let s ← mark? '-' s
  let (month, s) ← fixed? 2 s
  let s ← mark? '-' s
  let (day, s) ← fixed? 2 s
  guard (Date.Exists ⟨year, month, day⟩)
  some (padded 4 year ++ '-' :: padded 2 month ++ '-' :: padded 2 day, s)

/-- a fraction of a second, if there is one -/
def fraction (s : List Char) : List Char × List Char :=
  match s with
  | '.' :: r =>
    let (ds, rest) := digitsOf r
    if ds = [] then ([], s)
    else
      let shown := ((ds.take 9).reverse.dropWhile (· = '0')).reverse
      (if shown = [] then [] else '.' :: shown, rest)
  | _ => ([], s)

/-- an hour and a minute, of two digits each -/
def hourMinute? (s : List Char) : Option (Nat × Nat × List Char) := do
  let (hour, s) ← fixed? 2 s
  let s ← mark? ':' s
  let (minute, s) ← fixed? 2 s
  some (hour, minute, s)

/-- a time of day, which may be in a leap second -/
def time? (s : List Char) : Option (List Char × List Char) := do
  let (hour, minute, s) ← hourMinute? s
  let s ← mark? ':' s
  let (second, s) ← fixed? 2 s
  guard (hour < 24 ∧ minute < 60 ∧ second ≤ 60)
  let (places, s) := fraction s
  some (padded 2 hour ++ ':' :: padded 2 minute ++ ':' :: padded 2 second ++ places, s)

/-- an offset from UTC, if there is one; one of nothing is shown with a plus -/
def offset? (s : List Char) : Option (List Char × List Char) :=
  match s with
  | [] => some ([], [])
  | c :: r =>
    if c = 'Z' ∨ c = 'z' then some (['Z'], r)
    else if c = '+' ∨ c = '-' then do
      let (hour, minute, r) ← hourMinute? r
      guard (hour < 24 ∧ minute < 60)
      let shown := if hour = 0 ∧ minute = 0 then '+' else c
      some (shown :: padded 2 hour ++ ':' :: padded 2 minute, r)
    else some ([], s)

/-- the mark between a date and a time -/
def isTimeMark (c : Char) : Bool := c = 'T' || c = 't' || c = ' '

/-- the time after a date -/
def timeAfterDate? : List Char → Option (List Char × List Char)
  | [] => none
  | c :: r => if isTimeMark c then time? r else none

def moment? (s : List Char) : Option (List Char × List Char) :=
  match date? s with
  | none => time? s
  | some (date, r) =>
    match timeAfterDate? r with
    | none => some (date, r)
    | some (time, r) => do
      let (offset, r) ← offset? r
      some (date ++ 'T' :: time ++ offset, r)

/-- a text that is a date or a time from end to end -/
def momentText? (s : List Char) : Option (List Char) :=
  match moment? s with
  | some (shown, []) => some shown
  | _ => none

example : momentText? "1979-05-27 07:32:00.50z".toList = some "1979-05-27T07:32:00.5Z".toList := by
  decide +kernel

end CourseCompletion.Toml
