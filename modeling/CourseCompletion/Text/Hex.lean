/-!
# Digits of base 16

`hexChars w n` writes the lowest `w` digits of a number in small letters, and `hexNumber?` reads a
row of digits in either case.
-/

namespace CourseCompletion

/-- a digit of base 16, in small letters -/
def hexDigit (n : Nat) : Char := Nat.digitChar n

/-- the lowest `width` digits of a number, most significant first -/
def hexChars : (width : Nat) → Nat → List Char
  | 0, _ => []
  | width + 1, n => hexChars width (n / 16) ++ [hexDigit (n % 16)]

/-- the value of a digit of base 16, in either case -/
def hexValue? (c : Char) : Option Nat :=
  if c.isDigit then some (c.toNat - 48)
  else if 'a' ≤ c ∧ c ≤ 'f' then some (c.toNat - 87)
  else if 'A' ≤ c ∧ c ≤ 'F' then some (c.toNat - 55)
  else none

/-- the number that a row of digits denotes -/
def hexNumber? (ds : List Char) : Option Nat :=
  ds.foldlM (fun n c => (hexValue? c).map (n * 16 + ·)) 0

theorem length_hexChars (width n : Nat) : (hexChars width n).length = width := by
  induction width generalizing n with
  | zero => rfl
  | succ width ih => simp [hexChars, ih]

theorem hexValue?_hexDigit {n : Nat} (h : n < 16) : hexValue? (hexDigit n) = some n := by
  have table : ∀ n : Fin 16, hexValue? (hexDigit n) = some n.val := by decide
  exact table ⟨n, h⟩

/-- Reading takes back the lowest digits that writing shows. -/
theorem hexNumber?_hexChars (width n : Nat) :
    hexNumber? (hexChars width n) = some (n % Nat.pow 16 width) := by
  induction width generalizing n with
  | zero => simp [hexChars, hexNumber?, Nat.mod_one]
  | succ width ih =>
    have ih' := ih (n / 16)
    unfold hexNumber? at ih' ⊢
    rw [hexChars, List.foldlM_append, ih']
    have hd := hexValue?_hexDigit (Nat.mod_lt n (by decide : 0 < 16))
    have e : n / 16 % Nat.pow 16 width * 16 + n % 16 = n % Nat.pow 16 (width + 1) := by
      show _ = n % (Nat.pow 16 width * 16)
      rw [Nat.mul_comm (Nat.pow 16 width) 16, Nat.mod_mul]
      omega
    simp only [List.foldlM_cons, hd, List.foldlM_nil]
    exact congrArg some e

/-- Capitals are digits of the same values. -/
theorem hexValue?_toUpper (c : Char) : hexValue? c.toUpper = hexValue? c := by
  by_cases hc : 'a' ≤ c ∧ c ≤ 'z'
  · have table : ∀ n : Fin 26, hexValue? (Char.ofNat (97 + n)).toUpper =
        hexValue? (Char.ofNat (97 + n)) := by decide
    have hlow : 97 ≤ c.toNat := hc.1
    have hhigh : c.toNat ≤ 122 := hc.2
    have h := table ⟨c.toNat - 97, by omega⟩
    rwa [show 97 + (c.toNat - 97) = c.toNat by omega, Char.ofNat_toNat] at h
  · have hsame : c.toUpper = c := by
      unfold Char.toUpper
      exact dif_neg hc
    rw [hsame]

theorem hexNumber?_toUpper (ds : List Char) :
    hexNumber? (ds.map Char.toUpper) = hexNumber? ds := by
  unfold hexNumber?
  rw [List.foldlM_map]
  simp only [hexValue?_toUpper]

end CourseCompletion
