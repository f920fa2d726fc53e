/-!
# Decimal digits

Numbers as text, and back.

* `decimal n`        the digits of `n`, most significant first;
* `padded w n`       the same, filled up with zeros to `w` places;
* `decimalInt n`     the text of an integer, with a minus sign where needed;
* `digitsValue ds`   the number that a row of digits denotes (`digitsValue_decimal`);
* `digitsOf s`       the digits that a text begins with, and what follows them;
* `signed64? s`      a text that is a signed 64-bit integer from end to end
                     (`signed64?_decimalInt`);
* `wrapSigned64 n`, `wrapUnsigned64 n`   what 64 bits hold of a number.

Digits are the ten ASCII ones throughout.
-/

namespace CourseCompletion

/-! ## writing -/

/-- the digits of a number, most significant first -/
def decimal (n : Nat) : List Char := Nat.toDigits 10 n

/-- the digits of a number, filled up on the left with zeros to at least `width` places -/
def padded (width n : Nat) : List Char :=
  List.replicate (width - (decimal n).length) '0' ++ decimal n

def decimalInt : Int → List Char
  | .ofNat n => decimal n
  | .negSucc n => '-' :: decimal (n + 1)

theorem decimal_ne_nil (n : Nat) : decimal n ≠ [] := Nat.toDigits_ne_nil

theorem isDigit_of_mem_decimal {n : Nat} {c : Char} (h : c ∈ decimal n) : c.isDigit = true :=
  Nat.isDigit_of_mem_toDigits (by decide) (by decide) h

/-! ## reading -/

/-- the number that a row of digits denotes -/
def digitsValue (ds : List Char) : Nat := Nat.ofDigitChars 10 ds 0

theorem digitsValue_decimal (n : Nat) : digitsValue (decimal n) = n :=
  Nat.ofDigitChars_toDigits (by decide) (by decide)

theorem digitsValue_padded (width n : Nat) : digitsValue (padded width n) = n := by
  unfold digitsValue padded
  rw [Nat.ofDigitChars_append, Nat.ofDigitChars_replicate_zero]
  simpa [digitsValue] using digitsValue_decimal n

theorem isDigit_of_mem_padded {width n : Nat} {c : Char} (h : c ∈ padded width n) :
    c.isDigit = true := by
  rcases List.mem_append.1 h with h | h
  · rw [(List.mem_replicate.1 h).2]; decide
  · exact isDigit_of_mem_decimal h

/-- the digits that a text begins with, and what follows them -/
def digitsOf (s : List Char) : List Char × List Char :=
  (s.takeWhile Char.isDigit, s.dropWhile Char.isDigit)

/-- at most `limit` digits that a text begins with, and what follows them -/
def digitsUpTo (limit : Nat) (s : List Char) : List Char × List Char :=
  let ds := (s.take limit).takeWhile Char.isDigit
  (ds, s.drop ds.length)

theorem digitsOf_append (s : List Char) : (digitsOf s).1 ++ (digitsOf s).2 = s :=
  List.takeWhile_append_dropWhile

/-- A row of digits ends where no digit follows. -/
theorem digitsOf_of_digits {ds rest : List Char} (h : ∀ c ∈ ds, c.isDigit = true)
    (hr : ∀ c ∈ rest.head?, c.isDigit = false) : digitsOf (ds ++ rest) = (ds, rest) := by
  have hd : rest.takeWhile Char.isDigit = [] ∧ rest.dropWhile Char.isDigit = rest := by
    cases rest with
    | nil => exact ⟨rfl, rfl⟩
    | cons c r =>
      have hc := hr c (by simp)
      simp [hc]
  unfold digitsOf
  rw [List.takeWhile_append_of_pos h, List.dropWhile_append_of_pos h, hd.1, hd.2, List.append_nil]

/-! ## integers of 64 bits -/

/-- the integers of 64 bits with a sign -/
def fitsSigned64 (n : Int) : Bool := -9223372036854775808 ≤ n ∧ n ≤ 9223372036854775807

/-- the integers of 64 bits without a sign -/
def fitsUnsigned64 (n : Int) : Bool := 0 ≤ n ∧ n ≤ 18446744073709551615

theorem fitsSigned64_iff {n : Int} :
    fitsSigned64 n ↔ -9223372036854775808 ≤ n ∧ n ≤ 9223372036854775807 := decide_eq_true_iff

theorem fitsUnsigned64_iff {n : Int} :
    fitsUnsigned64 n ↔ 0 ≤ n ∧ n ≤ 18446744073709551615 := decide_eq_true_iff

/-- what 64 bits with a sign hold of a number, which wraps around at both ends -/
def wrapSigned64 (n : Int) : Int := n.bmod 18446744073709551616

/-- what 64 bits without a sign hold of a number -/
def wrapUnsigned64 (n : Nat) : Nat := n % 18446744073709551616

theorem wrapSigned64_of_fits {n : Int} (h : fitsSigned64 n) : wrapSigned64 n = n := by
  have hn := fitsSigned64_iff.1 h
  exact Int.bmod_eq_of_le (by omega) (by omega)

theorem wrapUnsigned64_of_fits {n : Nat} (h : fitsUnsigned64 n) : wrapUnsigned64 n = n := by
  have hn := fitsUnsigned64_iff.1 h
  exact Nat.mod_eq_of_lt (by omega)

/-- To count on and then wrap is to count on in 64 bits. -/
theorem wrapSigned64_add_one (n : Int) :
    wrapSigned64 (wrapSigned64 n + 1) = wrapSigned64 (n + 1) := Int.bmod_add_bmod

theorem wrapUnsigned64_add_one (n : Nat) :
    wrapUnsigned64 (wrapUnsigned64 n + 1) = wrapUnsigned64 (n + 1) := Nat.mod_add_mod n _ 1

/-- an integer with an optional sign and at least one digit, and nothing else -/
def integer? (s : List Char) : Option Int :=
  let (negative, ds) := match s with
    | '-' :: ds => (true, ds)
    | '+' :: ds => (false, ds)
    | ds => (false, ds)
  if ds ≠ [] ∧ ds.all Char.isDigit then
    some (if negative then -(digitsValue ds : Int) else digitsValue ds)
  else none

/-- a text that is a signed 64-bit integer from end to end -/
def signed64? (s : List Char) : Option Int := (integer? s).filter fitsSigned64

section

variable {ds : List Char} (hne : ds ≠ []) (hds : ∀ c ∈ ds, c.isDigit = true)
include hne hds

theorem integer?_of_digits : integer? ds = some (digitsValue ds : Int) := by
  have hall : ds ≠ [] ∧ ds.all Char.isDigit = true := ⟨hne, List.all_eq_true.2 hds⟩
  cases ds with
  | nil => exact absurd rfl hne
  | cons c cs =>
    have hc : c.isDigit = true := hds c List.mem_cons_self
    unfold integer?
    split
    next negative digits hsign =>
    -- a digit is no sign
    split at hsign
    · next h => obtain rfl := (List.cons.inj h).1; cases hc
    · next h => obtain rfl := (List.cons.inj h).1; cases hc
    · cases hsign
      rw [if_pos hall]
      rfl

theorem integer?_minus : integer? ('-' :: ds) = some (-(digitsValue ds : Int)) := by
  have hall : ds ≠ [] ∧ ds.all Char.isDigit = true := ⟨hne, List.all_eq_true.2 hds⟩
  exact if_pos hall

end

theorem integer?_decimalInt (n : Int) : integer? (decimalInt n) = some n := by
  have hread : ∀ m, digitsValue (decimal m) = m := digitsValue_decimal
  cases n with
  | ofNat m =>
    show integer? (decimal m) = _
    rw [integer?_of_digits (decimal_ne_nil m) fun c hc => isDigit_of_mem_decimal hc, hread]
    rfl
  | negSucc m =>
    show integer? ('-' :: decimal (m + 1)) = _
    rw [integer?_minus (decimal_ne_nil _) fun c hc => isDigit_of_mem_decimal hc, hread]
    rfl

/-- The text of an integer of 64 bits reads as that integer. -/
theorem signed64?_decimalInt {n : Int} (h : fitsSigned64 n = true) :
    signed64? (decimalInt n) = some n := by
  unfold signed64?
  rw [integer?_decimalInt, Option.filter_some, if_pos h]

end CourseCompletion
