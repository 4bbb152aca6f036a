/-!
Character properties as sorted tables of code point ranges.
-/

set_option autoImplicit false

namespace DocstringFormat.Character

/-- Inclusive ranges of code points in ascending order. -/
abbrev RangeTable := List (Nat × Nat)

/-- Whether a code point lies in one of the ranges; the search ends at the first range that
starts beyond it. -/
def RangeTable.contains : RangeTable → Nat → Bool
  | [], _ => false
  | (lo, hi) :: rest, n => lo ≤ n && (n ≤ hi || RangeTable.contains rest n)

end DocstringFormat.Character
