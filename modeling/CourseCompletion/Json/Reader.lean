import CourseCompletion.Json.Number
import CourseCompletion.Text.Hex

/-!
# Reading JSON text

`Json.ofChars?` reads a text that is one JSON value from end to end, by the grammar of RFC 8259
and no other: no comma too many, no comment, no byte order mark, no control character in a
string.

Every reader takes the text that is left and gives what it read with the text after it.  A string
is first cut into its pieces, characters and escaped code units, and `joined` then pairs the
surrogates.  The readers of nested values count down a number that the text is too short to use
up: two calls read at least one character.
-/

namespace CourseCompletion

namespace Json

/-! ## white space and words -/

/-- the four characters that JSON skips between tokens -/
def isSpace (c : Char) : Bool := c = ' ' ∨ c = '\t' ∨ c = '\n' ∨ c = '\r'

def skipSpace (s : List Char) : List Char := s.dropWhile isSpace

/-- a word that must come next -/
def word? : List Char → List Char → Option (List Char)
  | [], s => some s
  | c :: cs, d :: s => if c = d then word? cs s else none
  | _ :: _, [] => none

/-! ## strings -/

/-- A piece of a string: a character, or a code unit that is written as an escape. -/
inductive Piece where
  | char (c : Char)
  | unit (n : Nat)

/-- the character of an escape of one letter -/
def escape? (c : Char) : Option Char :=
  if c = '"' then some '"'
  else if c = '\\' then some '\\'
  else if c = '/' then some '/'
  else if c = 'b' then some '\x08'
  else if c = 'f' then some '\x0c'
  else if c = 'n' then some '\n'
  else if c = 'r' then some '\r'
  else if c = 't' then some '\t'
  else none

/-- the pieces of a string after its opening quote, and what follows the closing one -/
def pieces? : List Char → Option (List Piece × List Char)
  | [] => none
  | '"' :: r => some ([], r)
  | '\\' :: 'u' :: a :: b :: c :: d :: r => do
    let n ← hexNumber? [a, b, c, d]
    let (ps, r) ← pieces? r
    some (.unit n :: ps, r)
  | '\\' :: c :: r => do
    let e ← escape? c
    let (ps, r) ← pieces? r
    some (.char e :: ps, r)
  | c :: r =>
    if c.toNat < 32 ∨ c = '\\' then none
    else do
      let (ps, r) ← pieces? r
      some (.char c :: ps, r)

/-- the text of a string, where every surrogate has its partner -/
def joined : List Piece → Option (List Char)
  | [] => some []
  | .char c :: ps => (joined ps).map (c :: ·)
  | .unit n :: ps =>
    if 0xD800 ≤ n ∧ n < 0xDC00 then
      match ps with
      | .unit m :: ps =>
        if 0xDC00 ≤ m ∧ m < 0xE000 then
          (joined ps).map (Char.ofNat (0x10000 + (n - 0xD800) * 0x400 + (m - 0xDC00)) :: ·)
        else none
      | _ => none
    else if 0xDC00 ≤ n ∧ n < 0xE000 then none
    else (joined ps).map (Char.ofNat n :: ·)

/-! ## values -/

/-- an object of members whose keys may be unreadable -/
def ofMembers (members : List (Option (List Char) × Json)) : Json :=
  match members.mapM (fun m => m.1.map fun key => (String.ofList key, m.2)) with
  | some members => .object members
  | none => .unreadable

/-- a list or an object with a number of others around it: 127 deep is as deep as one can be read -/
def within (level : Nat) (value : Json) : Json := if level < 127 then value else .unreadable

mutual

/-- the value that comes next, after white space, with a number of lists and objects around it -/
def value? : Nat → Nat → List Char → Option (Json × List Char)
  | 0, _, _ => none
  | n + 1, level, s =>
    match skipSpace s with
    | [] => none
    | '"' :: r => do
      let (ps, r) ← pieces? r
      some ((joined ps).elim .unreadable fun cs => .string (String.ofList cs), r)
    | '[' :: r =>
      match skipSpace r with
      | ']' :: r => some (within level (.array []), r)
      | r => do
        let (items, r) ← items? n (level + 1) r
        some (within level (.array items), r)
    | '\x7b' :: r =>
      match skipSpace r with
      | '\x7d' :: r => some (within level (.object []), r)
      | r => do
        let (members, r) ← members? n (level + 1) r
        some (within level (ofMembers members), r)
    | 'n' :: r => (word? ['u', 'l', 'l'] r).map (.null, ·)
    | 't' :: r => (word? ['r', 'u', 'e'] r).map (.bool true, ·)
    | 'f' :: r => (word? ['a', 'l', 's', 'e'] r).map (.bool false, ·)
    | s => number? s

/-- the items of a list that is not empty, and the closing bracket -/
def items? : Nat → Nat → List Char → Option (List Json × List Char)
  | 0, _, _ => none
  | n + 1, level, s => do
    let (item, r) ← value? n level s
    match skipSpace r with
    | ',' :: r => do
      let (items, r) ← items? n level r
      some (item :: items, r)
    | ']' :: r => some ([item], r)
    | _ => none

/-- the members of an object that is not empty, and the closing brace -/
def members? : Nat → Nat → List Char → Option (List (Option (List Char) × Json) × List Char)
  | 0, _, _ => none
  | n + 1, level, s =>
    match skipSpace s with
    | '"' :: r => do
      let (ps, r) ← pieces? r
      match skipSpace r with
      | ':' :: r => do
        let (value, r) ← value? n level r
        match skipSpace r with
        | ',' :: r => do
          let (members, r) ← members? n level r
          some ((joined ps, value) :: members, r)
        | '\x7d' :: r => some ([(joined ps, value)], r)
        | _ => none
      | _ => none
    | _ => none

end

/-- the value that a text stands for from end to end -/
def ofChars? (s : List Char) : Option Json := do
  let (value, r) ← value? (2 * s.length + 2) 0 s
  if skipSpace r = [] then some value else none

/-- the value that a text stands for from end to end -/
def ofText? (s : String) : Option Json := ofChars? s.toList

end Json

end CourseCompletion
