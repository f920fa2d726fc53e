/-!
# Ranges of code points

A property of characters is a table of ranges in ascending order that do not meet; `inRanges` looks
a code point up and stops at the first range behind it.
-/

namespace CourseCompletion

/-- a number lies in one of some ranges in ascending order -/
def inRanges (n : Nat) : List (Nat × Nat) → Bool
  | [] => false
  | (first, last) :: ranges => first ≤ n && (n ≤ last || inRanges n ranges)

end CourseCompletion
