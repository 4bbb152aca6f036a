/-!
Faults: the ways in which a call can ask for something that has no value.
-/

set_option autoImplicit false

namespace DocstringFormat

inductive Fault where
  | zeroTabSize
  /-- A count left the range of 64-bit numbers. -/
  | overflow
  | insideCharacter
deriving DecidableEq

/-- The first number beyond the 64-bit range. -/
def wordLimit : Nat := 18446744073709551616

end DocstringFormat
