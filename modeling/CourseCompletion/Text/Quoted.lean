import CourseCompletion.Text.Hex
import CourseCompletion.Text.Unprintable

/-!
# Text in quotes

`quotedText` writes a text between double quotes, on one line and with nothing in it that cannot be
seen: the quote, the backslash and the usual control characters follow a backslash, and any other
character without a shape is written as its code point in braces.
-/

namespace CourseCompletion

/-- the digits of a number in base 16, without zeros in front -/
def hexDigits (n : Nat) : List Char := Nat.toDigits 16 n

/-- a character as it stands between double quotes -/
def visible (c : Char) : List Char :=
  if c = '"' then ['\\', '"']
  else if c = '\\' then ['\\', '\\']
  else if c = '\n' then ['\\', 'n']
  else if c = '\r' then ['\\', 'r']
  else if c = '\t' then ['\\', 't']
  else if c = '\x00' then ['\\', '0']
  else if isUnprintable c then '\\' :: 'u' :: '\x7b' :: hexDigits c.toNat ++ ['\x7d']
  else [c]

/-- a text between double quotes -/
def quotedText (s : String) : String :=
  String.ofList ('"' :: s.toList.flatMap visible ++ ['"'])

example : quotedText "a\tb" = "\"a\\tb\"" := by decide +kernel
example : quotedText "\u00e9\u00a0" = "\"\u00e9\\u\x7ba0\x7d\"" := by decide +kernel

end CourseCompletion
