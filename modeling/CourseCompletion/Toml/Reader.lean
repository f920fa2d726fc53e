import CourseCompletion.Toml.Moment
import CourseCompletion.Toml.Number
import CourseCompletion.Toml.Text

/-!
# Reading TOML

`Toml.statements?` reads the statements of a document, by the grammar of TOML 1.0.  Values are
nested less than 80 deep, and keys have less than 80 parts.

The readers of nested values count down a number that the text is too short to use up, and another
for the depth.
-/

namespace CourseCompletion.Toml

/-- lists and tables are nested less deep than this, and keys have fewer parts -/
def depthLimit : Nat := 80

/-! ## blanks and comments -/

def skipBlanks (s : List Char) : List Char := s.dropWhile isBlankChar

/-- a text without the comment that it begins with -/
def skipComment : List Char → List Char
  | '#' :: r => r.dropWhile isTextChar
  | s => s

/-- what follows the end of a line, after blanks and a comment -/
def lineEnd? (s : List Char) : Option (List Char) :=
  match skipComment (skipBlanks s) with
  | [] => some []
  | '\n' :: r => some r
  | '\r' :: '\n' :: r => some r
  | _ => none

/-- a text without the blanks, comments and line ends that it begins with, of which the number
allows so many -/
def skipLines : Nat → List Char → List Char
  | 0, s => s
  | n + 1, s =>
    match lineEnd? s with
    | some r => if r = [] then [] else skipLines n r
    | none => skipBlanks s

/-! ## keys -/

/-- a character of a key without quotes -/
def isKeyChar (c : Char) : Bool := c.isAlphanum || c = '_' || c = '-'

def keyPart? : List Char → Option (List Char × List Char)
  | '"' :: r => basic? r
  | '\x27' :: r => literal? r
  | s => if s.takeWhile isKeyChar = [] then none
    else some (s.takeWhile isKeyChar, s.dropWhile isKeyChar)

/-- a key of at most so many parts, with the blanks around it -/
def key? : Nat → List Char → Option (Path × List Char)
  | 0, _ => none
  | n + 1, s => do
    let (part, r) ← keyPart? (skipBlanks s)
    match skipBlanks r with
    | '.' :: r => do
      let (path, r) ← key? n r
      some (part :: path, r)
    | r => some ([part], r)

/-! ## values -/

/-- a word that must come next -/
def literally? : List Char → List Char → Option (List Char)
  | [], s => some s
  | c :: cs, d :: s => if c = d then literally? cs s else none
  | _ :: _, [] => none

/-- a value that is neither a list nor a table -/
def scalar? (s : List Char) : Option (Scalar × List Char) :=
  match s with
  | [] => none
  | c :: r =>
    if c = '"' ∨ c = '\x27' then do
      let (cs, r) ← string? s
      some (.text cs, r)
    else if c = 't' then (literally? ['r', 'u', 'e'] r).map (.boolean true, ·)
    else if c = 'f' then (literally? ['a', 'l', 's', 'e'] r).map (.boolean false, ·)
    else match moment? s with
      | some (written, r) => some (.moment written, r)
      | none => float? s <|> integer? s

mutual

def value? : (fuel depth : Nat) → List Char → Option (Toml × List Char)
  | 0, _, _ => none
  | n + 1, depth, s =>
    match s with
    | '[' :: r => if depth = 0 then none else do
      let (items, r) ← items? n (depth - 1) r
      some (list items, r)
    | '\x7b' :: r => if depth = 0 then none else
      match skipBlanks r with
      | '\x7d' :: r => some (table [], r)
      | r => do
        let (entries, r) ← entries? n (depth - 1) r
        some (table entries, r)
    | s => (scalar? s).map fun (v, r) => (scalar v, r)

/-- the items of a list and the closing bracket; a comma may stand before it -/
def items? : (fuel depth : Nat) → List Char → Option (List Toml × List Char)
  | 0, _, _ => none
  | n + 1, depth, s =>
    match skipLines s.length s with
    | ']' :: r => some ([], r)
    | s => do
      let (item, r) ← value? n depth s
      match skipLines r.length r with
      | ',' :: r => do
        let (items, r) ← items? n depth r
        some (item :: items, r)
      | ']' :: r => some ([item], r)
      | _ => none

/-- the entries of a table that is not empty, on one line, and the closing brace -/
def entries? : (fuel depth : Nat) → List Char → Option (List (Path × Toml) × List Char)
  | 0, _, _ => none
  | n + 1, depth, s => do
    let (path, r) ← key? (depthLimit - 1) s
    let r ← mark? '=' r
    let (value, r) ← value? n depth (skipBlanks r)
    match skipBlanks r with
    | ',' :: r => do
      let (entries, r) ← entries? n depth r
      some ((path, value) :: entries, r)
    | '\x7d' :: r => some ([(path, value)], r)
    | _ => none

end

/-! ## statements -/

def statement? (s : List Char) : Option (Statement × List Char) :=
  match s with
  | '[' :: '[' :: r => do
    let (path, r) ← key? (depthLimit - 1) r
    let r ← mark? ']' r
    let r ← mark? ']' r
    some (.arrayHeader path, r)
  | '[' :: r => do
    let (path, r) ← key? (depthLimit - 1) r
    let r ← mark? ']' r
    some (.header path, r)
  | s => do
    let (path, r) ← key? (depthLimit - 1) s
    let r ← mark? '=' r
    let (value, r) ← value? (2 * s.length + 2) (depthLimit - 1) (skipBlanks r)
    some (.entry path value, r)

/-- the statements of a text of fewer lines than the number -/
def lines? : Nat → List Char → Option (List Statement)
  | 0, _ => none
  | n + 1, s =>
    if s = [] then some []
    else match lineEnd? s with
      | some r => lines? n r
      | none => do
        let (statement, r) ← statement? (skipBlanks s)
        let r ← lineEnd? r
        let statements ← lines? n r
        some (statement :: statements)

/-- a text without the byte order mark that it may begin with -/
def withoutMark : List Char → List Char
  | '\ufeff' :: r => r
  | s => s

/-- the statements of a document, which may begin with a byte order mark -/
def statements? (s : List Char) : Option (List Statement) :=
  let s := withoutMark s
  lines? (s.length + 1) s

end CourseCompletion.Toml
