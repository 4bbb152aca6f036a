import DocstringFormat.Text.Basic

/-!
Values of a TOML document.

Floats and times are told from other values, but what they amount to is not kept: no setting is
a float or a time.
-/

set_option autoImplicit false

namespace DocstringFormat.Toml

inductive Value where
  | string (s : Text)
  | integer (n : Int)
  | float
  | boolean (b : Bool)
  | time
  | array (items : List Value)
  | table (entries : List (Text × Value))

/-- What a reader returns: a value and the text after it, unless the text has the wrong form. -/
abbrev Reader (α : Type) := Text → Option (α × Text)

end DocstringFormat.Toml
