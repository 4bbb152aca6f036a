import DocstringFormat.Toml.Value

/-!
Strings of a TOML document: basic and literal, on one line or on several.
-/

set_option autoImplicit false

namespace DocstringFormat.Toml

def isSpace (c : Char) : Bool :=
  c == ' ' || c == '\t'

/-- Characters that may stand in comments and strings: tab, and all but control characters. -/
def isTextChar (c : Char) : Bool :=
  c == '\t' || (0x20 ≤ c.toNat && c.toNat ≠ 0x7F)

def hexValue? (c : Char) : Option Nat :=
  if c.isDigit then some (c.toNat - '0'.toNat)
  else if 'a' ≤ c ∧ c ≤ 'f' then some (c.toNat - 'a'.toNat + 10)
  else if 'A' ≤ c ∧ c ≤ 'F' then some (c.toNat - 'A'.toNat + 10)
  else none

def hexNumber? (digits : List Char) : Option Nat :=
  digits.foldlM (fun n c => (hexValue? c).map (fun d => 16 * n + d)) 0

def charOfCode? (n : Nat) : Option Char :=
  if n < 0xD800 ∨ (0xDFFF < n ∧ n < 0x110000) then some (Char.ofNat n) else none

def hexChar? (digits : List Char) : Option Char :=
  (hexNumber? digits).bind charOfCode?

def simpleEscape? (c : Char) : Option Char :=
  match c with
  | 'b' => some '\x08'
  | 't' => some '\t'
  | 'n' => some '\n'
  | 'f' => some '\x0c'
  | 'r' => some '\r'
  | '"' => some '"'
  | '\\' => some '\\'
  | _ => none

/-- Puts a character in front of what a reader returns. -/
def prepend (c : Char) (r : Option (Text × Text)) : Option (Text × Text) :=
  r.map fun (s, rest) => (c :: s, rest)

/-- Puts a character that may be missing in front of what a reader returns. -/
def prepend? (c : Option Char) (r : Option (Text × Text)) : Option (Text × Text) :=
  c.bind fun c => prepend c r

def basicString : Reader Text
  | [] => none
  | '"' :: rest => some ([], rest)
  | '\\' :: 'u' :: a :: b :: c :: d :: rest => prepend? (hexChar? [a, b, c, d]) (basicString rest)
  | '\\' :: 'U' :: a :: b :: c :: d :: e :: f :: g :: h :: rest =>
    prepend? (hexChar? [a, b, c, d, e, f, g, h]) (basicString rest)
  | '\\' :: c :: rest => prepend? (simpleEscape? c) (basicString rest)
  | c :: rest => if isTextChar c && c != '\\' then prepend c (basicString rest) else none

def literalString : Reader Text
  | [] => none
  | '\'' :: rest => some ([], rest)
  | c :: rest => if isTextChar c then prepend c (literalString rest) else none

def isLineJoin (s : Text) : Bool :=
  match s.dropWhile isSpace with
  | '\n' :: _ => true
  | '\r' :: '\n' :: _ => true
  | _ => false

/-- A basic string of several lines after its opening quotes.  While `joining`, blanks and line
endings are skipped, as they are after a backslash at the end of a line. -/
def multilineBasic (joining : Bool) : Reader Text
  | [] => none
  | '"' :: '"' :: '"' :: '"' :: '"' :: rest => some (['"', '"'], rest)
  | '"' :: '"' :: '"' :: '"' :: rest => some (['"'], rest)
  | '"' :: '"' :: '"' :: rest => some ([], rest)
  | '\r' :: '\n' :: rest =>
    if joining then multilineBasic true rest else prepend '\n' (multilineBasic false rest)
  | '\n' :: rest =>
    if joining then multilineBasic true rest else prepend '\n' (multilineBasic false rest)
  | '\\' :: 'u' :: a :: b :: c :: d :: rest =>
    prepend? (hexChar? [a, b, c, d]) (multilineBasic false rest)
  | '\\' :: 'U' :: a :: b :: c :: d :: e :: f :: g :: h :: rest =>
    prepend? (hexChar? [a, b, c, d, e, f, g, h]) (multilineBasic false rest)
  | '\\' :: c :: rest =>
    if isLineJoin (c :: rest) then multilineBasic true (c :: rest)
    else prepend? (simpleEscape? c) (multilineBasic false rest)
  | c :: rest =>
    if joining && isSpace c then multilineBasic true rest
    else if isTextChar c && c != '\\' then prepend c (multilineBasic false rest)
    else none

/-- A literal string of several lines after its opening quotes. -/
def multilineLiteral : Reader Text
  | [] => none
  | '\'' :: '\'' :: '\'' :: '\'' :: '\'' :: rest => some (['\'', '\''], rest)
  | '\'' :: '\'' :: '\'' :: '\'' :: rest => some (['\''], rest)
  | '\'' :: '\'' :: '\'' :: rest => some ([], rest)
  | '\r' :: '\n' :: rest => prepend '\n' (multilineLiteral rest)
  | c :: rest => if c == '\n' || isTextChar c then prepend c (multilineLiteral rest) else none

def dropFirstNewline : Text → Text
  | '\r' :: '\n' :: rest => rest
  | '\n' :: rest => rest
  | s => s

def anyString : Reader Text
  | '"' :: '"' :: '"' :: rest => multilineBasic false (dropFirstNewline rest)
  | '\'' :: '\'' :: '\'' :: rest => multilineLiteral (dropFirstNewline rest)
  | '"' :: rest => basicString rest
  | '\'' :: rest => literalString rest
  | _ => none

end DocstringFormat.Toml
