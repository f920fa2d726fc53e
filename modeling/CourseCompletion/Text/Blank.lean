/-!
# White space

`isBlank` is the `White_Space` property of Unicode: 25 characters.  `dropBlank` skips the run of
them that a text begins with.
-/

namespace CourseCompletion

/-- the characters with the property `White_Space` -/
def isBlank (c : Char) : Bool :=
  let n := c.toNat
  (0x09 ≤ n && n ≤ 0x0D) || n == 0x20 || n == 0x85 || n == 0xA0 || n == 0x1680 ||
  (0x2000 ≤ n && n ≤ 0x200A) || n == 0x2028 || n == 0x2029 || n == 0x202F || n == 0x205F ||
  n == 0x3000

/-- a text without the white space that it begins with -/
def dropBlank (s : List Char) : List Char := s.dropWhile isBlank

theorem dropBlank_of_head {s : List Char} (h : ∀ c ∈ s.head?, isBlank c = false) :
    dropBlank s = s := by
  cases s with
  | nil => rfl
  | cons c r =>
    have hc := h c (by simp)
    simp [dropBlank, hc]

theorem isBlank_of_isDigit {c : Char} (h : c.isDigit = true) : isBlank c = false := by
  simp only [Char.isDigit, ge_iff_le, Bool.and_eq_true, decide_eq_true_eq] at h
  have h1 : 48 ≤ c.toNat := h.1
  have h2 : c.toNat ≤ 57 := h.2
  simp only [isBlank, Bool.or_eq_false_iff, Bool.and_eq_false_iff, decide_eq_false_iff_not,
    beq_eq_false_iff_ne]
  omega

end CourseCompletion
