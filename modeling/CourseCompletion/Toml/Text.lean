import CourseCompletion.Text.Hex

/-!
# Strings of TOML

A string stands between double quotes, where a backslash escapes, or between single quotes, where
nothing does; three quotes instead of one let it run over several lines.

* `Toml.string?`   the text of the string that comes next, with what follows it;
* `Toml.string`    a text as a string, in the plainest of the four forms that shows it as it is.

A string of several lines may hold up to two of its quotes in a row, also right before the three
that close it, and drops a line end that follows the three that open it.
-/

namespace CourseCompletion.Toml

/-! ## characters -/

/-- a character that may stand in a string or a comment: no control character but the tab -/
def isTextChar (c : Char) : Bool := c = '\t' || (32 ≤ c.toNat && c.toNat ≠ 127)

/-- a character that stands for itself between double quotes -/
def isBasicChar (c : Char) : Bool := isTextChar c && c ≠ '"' && c ≠ '\\'

/-- a character that may stand between single quotes -/
def isLiteralChar (c : Char) : Bool := isTextChar c && c ≠ '\x27'

def isBlankChar (c : Char) : Bool := c = ' ' || c = '\t'

/-- the character of an escape of one letter -/
def escape? (c : Char) : Option Char :=
  if c = 'b' then some '\x08'
  else if c = 't' then some '\t'
  else if c = 'n' then some '\n'
  else if c = 'f' then some '\x0c'
  else if c = 'r' then some '\r'
  else if c = '"' then some '"'
  else if c = '\\' then some '\\'
  else none

/-- the character of a code point in digits of base 16 -/
def codePoint? (ds : List Char) : Option Char := do
  let n ← hexNumber? ds
  if n.isValidChar then some (Char.ofNat n) else none

/-! ## reading

Each reader takes what follows the opening quotes, and gives the text with what follows the closing
ones. -/

/-- one more character in front of a text that was read -/
def push (c : Char) (read : Option (List Char × List Char)) : Option (List Char × List Char) :=
  read.map fun (cs, r) => (c :: cs, r)

def basic? : List Char → Option (List Char × List Char)
  | [] => none
  | '"' :: r => some ([], r)
  | '\\' :: 'u' :: a :: b :: c :: d :: r => do push (← codePoint? [a, b, c, d]) (basic? r)
  | '\\' :: 'U' :: a :: b :: c :: d :: e :: f :: g :: h :: r => do
    push (← codePoint? [a, b, c, d, e, f, g, h]) (basic? r)
  | '\\' :: c :: r => do push (← escape? c) (basic? r)
  | c :: r => if isBasicChar c then push c (basic? r) else none

def literal? : List Char → Option (List Char × List Char)
  | [] => none
  | '\x27' :: r => some ([], r)
  | c :: r => if isLiteralChar c then push c (literal? r) else none

/-- up to two quotes that stand before the three that close a string: the text here is what follows
three quotes, of which the first ones belong to the string if more quotes follow -/
def closing (quote : Char) : List Char → List Char × List Char
  | a :: b :: r =>
    if a = quote ∧ b = quote then ([quote, quote], r)
    else if a = quote then ([quote], b :: r)
    else ([], a :: b :: r)
  | [a] => if a = quote then ([quote], []) else ([], [a])
  | [] => ([], [])

/-- the rest of the line is blank -/
def endsLine (s : List Char) : Bool :=
  match s.dropWhile isBlankChar with
  | '\n' :: _ | '\r' :: '\n' :: _ => true
  | _ => false

/-- between three double quotes; blanks and line ends are skipped after a backslash that ends a
line -/
def multiBasic? (skipping : Bool) : List Char → Option (List Char × List Char)
  | [] => none
  | '"' :: '"' :: '"' :: r => some (closing '"' r)
  | '"' :: r => push '"' (multiBasic? false r)
  | '\n' :: r => if skipping then multiBasic? true r else push '\n' (multiBasic? false r)
  | '\r' :: '\n' :: r => if skipping then multiBasic? true r else push '\n' (multiBasic? false r)
  | '\\' :: 'u' :: a :: b :: c :: d :: r => do
    push (← codePoint? [a, b, c, d]) (multiBasic? false r)
  | '\\' :: 'U' :: a :: b :: c :: d :: e :: f :: g :: h :: r => do
    push (← codePoint? [a, b, c, d, e, f, g, h]) (multiBasic? false r)
  | '\\' :: c :: r =>
    if endsLine (c :: r) then multiBasic? true (c :: r)
    else do push (← escape? c) (multiBasic? false r)
  | c :: r =>
    if skipping && isBlankChar c then multiBasic? true r
    else if isBasicChar c then push c (multiBasic? false r)
    else none

def multiLiteral? : List Char → Option (List Char × List Char)
  | [] => none
  | '\x27' :: '\x27' :: '\x27' :: r => some (closing '\x27' r)
  | '\x27' :: r => push '\x27' (multiLiteral? r)
  | '\n' :: r => push '\n' (multiLiteral? r)
  | '\r' :: '\n' :: r => push '\n' (multiLiteral? r)
  | c :: r => if isLiteralChar c then push c (multiLiteral? r) else none

/-- a text without a line end at its start -/
def dropLineEnd : List Char → List Char
  | '\n' :: r => r
  | '\r' :: '\n' :: r => r
  | s => s

def string? : List Char → Option (List Char × List Char)
  | '"' :: '"' :: '"' :: r => multiBasic? false (dropLineEnd r)
  | '"' :: r => basic? r
  | '\x27' :: '\x27' :: '\x27' :: r => multiLiteral? (dropLineEnd r)
  | '\x27' :: r => literal? r
  | _ => none

/-! ## writing -/

inductive Quotes where
  | basic
  | literal
  | multiBasic
  | multiLiteral
deriving DecidableEq

/-- the text holds a control character that must be escaped -/
def hasControl (s : List Char) : Bool := s.any fun c => !isTextChar c && c ≠ '\n'

/-- three of a character stand in a row -/
def hasTriple (q : Char) : List Char → Bool
  | a :: b :: c :: r => (a = q && b = q && c = q) || hasTriple q (b :: c :: r)
  | _ => false

/-- the quotes between which a text stands: the first of the four that show it as it is, or double
ones with escapes -/
def quotesFor (s : List Char) : Quotes :=
  let control := hasControl s
  if !control && !s.contains '\\' && !s.contains '"' && !s.contains '\n' then .basic
  else if !control && !s.contains '\x27' && !s.contains '\n' then .literal
  else if !control && !s.contains '\\' && !hasTriple '"' s then .multiBasic
  else if !control && !hasTriple '\x27' s then .multiLiteral
  else if s.contains '\n' then .multiBasic
  else .basic

/-- a character other than a quote and a line end, between double quotes -/
def escaped (c : Char) : List Char :=
  if c = '\x08' then ['\\', 'b']
  else if c = '\t' then ['\\', 't']
  else if c = '\x0c' then ['\\', 'f']
  else if c = '\r' then ['\\', 'r']
  else if c = '\\' then ['\\', '\\']
  else if isTextChar c then [c]
  else '\\' :: 'u' :: (hexChars 4 c.toNat).map Char.toUpper

/-- a text between double quotes, without them -/
def basicBody (s : List Char) : List Char :=
  s.flatMap fun c => if c = '"' then ['\\', '"'] else if c = '\n' then ['\\', 'n'] else escaped c

/-- a text between three double quotes, without them, where `run` quotes stand right before it:
every third quote in a row is escaped -/
def multiBasicBody (run : Nat) : List Char → List Char
  | [] => []
  | c :: s =>
    if c = '"' then
      if run = 2 then '\\' :: '"' :: multiBasicBody 0 s else '"' :: multiBasicBody (run + 1) s
    else if c = '\n' then '\n' :: multiBasicBody 0 s
    else escaped c ++ multiBasicBody 0 s

/-- a line end after the opening quotes, if the text runs over several lines -/
def opening (s : List Char) : List Char := if s.contains '\n' then ['\n'] else []

def string (s : List Char) : List Char :=
  match quotesFor s with
  | .basic => '"' :: basicBody s ++ ['"']
  | .literal => '\x27' :: s ++ ['\x27']
  | .multiBasic =>
    '"' :: '"' :: '"' :: opening s ++ multiBasicBody 0 s ++ ['"', '"', '"']
  | .multiLiteral =>
    '\x27' :: '\x27' :: '\x27' :: opening s ++ s ++ ['\x27', '\x27', '\x27']

example : string ['a', '\t', 'b'] = "\"a\\tb\"".toList := by decide +kernel
example : string? (string ['"', '\x27', '\n', '\x01', '"', '"', '"']) =
    some (['"', '\x27', '\n', '\x01', '"', '"', '"'], []) := by decide +kernel

end CourseCompletion.Toml
