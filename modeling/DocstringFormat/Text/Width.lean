import DocstringFormat.Character.Width
import DocstringFormat.Text.Basic

/-!
Display width of a text.

Terminal escape sequences take no columns: a control sequence runs up to its final byte, an
operating system command up to the bell or the string terminator, and any other escape is two
characters long.
-/

set_option autoImplicit false

namespace DocstringFormat.Text

inductive WidthState where
  | plain
  | escape
  | control
  /-- Inside an operating system command; whether its last character was an escape. -/
  | command (escaped : Bool)

namespace WidthState

def step : WidthState → Char → Nat × WidthState
  | plain, c => if c = '\x1b' then (0, escape) else (Character.displayWidth c, plain)
  | escape, c =>
    if c = '[' then (0, control) else if c = ']' then (0, command false) else (0, plain)
  | control, c => if '@' ≤ c ∧ c ≤ '~' then (0, plain) else (0, control)
  | command escaped, c =>
    if c = '\x07' ∨ (c = '\\' ∧ escaped) then (0, plain) else (0, command (c == '\x1b'))

end WidthState

def widthFrom : WidthState → Text → Nat
  | _, [] => 0
  | state, c :: rest => (state.step c).1 + widthFrom (state.step c).2 rest

def width (s : Text) : Nat :=
  widthFrom .plain s

end DocstringFormat.Text
