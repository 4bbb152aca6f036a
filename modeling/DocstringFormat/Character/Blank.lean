/-!
Blank characters.  A blank is any character with the property `White_Space`: the ASCII blanks
from tab to carriage return and the space, the next-line and no-break controls, and the spaces
and separators of general punctuation.  The information separators and the zero-width space are
not blanks.
-/

set_option autoImplicit false

namespace DocstringFormat.Character

def isBlank (c : Char) : Bool :=
  let n := c.toNat
  (0x09 ≤ n && n ≤ 0x0D) || n == 0x20 || n == 0x85 || n == 0xA0 || n == 0x1680 ||
    (0x2000 ≤ n && n ≤ 0x200A) || n == 0x2028 || n == 0x2029 || n == 0x202F || n == 0x205F ||
    n == 0x3000

end DocstringFormat.Character
