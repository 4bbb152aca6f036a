import DocstringFormat.Text.Basic

/-!
Errors that are reported to the user, each with the text in which it is reported.
-/

set_option autoImplicit false

namespace DocstringFormat

inductive Error where
  | unsupportedLiteral (literal : Text)
  /-- A source ends inside a string or a statement. -/
  | tokenize (line column : Nat) (reason : Text)
  | indentation (line : Nat) (reason : Text)
  /-- A configuration file has the wrong form. -/
  | config (path reason : Text)
  | invalidOption (reason : Text)
  /-- A file could not be read or written. -/
  | io (path reason : Text)
deriving DecidableEq

namespace Error

def literalExcerpt : Nat := 40

def ofLiteral (literal : Text) : Error :=
  unsupportedLiteral (literal.take literalExcerpt)

def digits (n : Nat) : Text :=
  Nat.toDigits 10 n

def message : Error → Text
  | unsupportedLiteral literal =>
    "Unsupported literal: only triple-quoted (single or double) strings are handled: ".toList ++
      literal
  | tokenize line column reason =>
    "Tokenize error at line ".toList ++ digits line ++ ", column ".toList ++ digits column ++
      ": ".toList ++ reason
  | indentation line reason =>
    "Indentation error at line ".toList ++ digits line ++ ": ".toList ++ reason
  | config path reason => "Configuration error in ".toList ++ path ++ ": ".toList ++ reason
  | invalidOption reason => "Invalid option: ".toList ++ reason
  | io path reason => "IO error on ".toList ++ path ++ ": ".toList ++ reason

end Error

end DocstringFormat
