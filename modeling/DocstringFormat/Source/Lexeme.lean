import DocstringFormat.Character.Numeric
import DocstringFormat.Source.Token
import DocstringFormat.Text.LineEnding

/-!
Lexemes: what stands next on a physical line.

Lengths are counted in characters.  A lexeme is given by its first character and the number of
further characters that belong to it.
-/

set_option autoImplicit false

namespace DocstringFormat.Source

def operators3 : List Text :=
  ["**=", "//=", ">>=", "<<=", "..."].map String.toList

def operators2 : List Text :=
  ["**", "//", ">>", "<<", "<=", ">=", "==", "!=", "->", "+=", "-=", "*=", "/=", "%=", "&=",
   "|=", "^=", "@=", ":="].map String.toList

def openBrackets : List Char := ['(', '[', '\x7b']

def closeBrackets : List Char := [')', ']', '\x7d']

def operators1 : List Char :=
  openBrackets ++ closeBrackets ++
    ['+', '-', '*', '/', '%', '@', '&', '|', '^', '~', '<', '>', ',', ':', ';', '.', '=']

def operatorLength (s : Text) : Nat :=
  if operators3.any (fun o => o.isPrefixOf s) then 3
  else if operators2.any (fun o => o.isPrefixOf s) then 2
  else
    match s with
    | c :: _ => if c ∈ operators1 then 1 else 0
    | [] => 0

/-- The letters that may stand before a quote, longer groups first. -/
def stringMarks : List Text :=
  ["br", "bR", "Br", "BR", "rb", "rB", "Rb", "RB", "fr", "fR", "Fr", "FR", "rf", "rF", "Rf",
   "RF", "r", "R", "u", "U", "b", "B", "f", "F"].map String.toList

def startsWithQuote : Text → Bool
  | c :: _ => c == '"' || c == '\''
  | [] => false

def leadingQuote? : Text → Option Text
  | '"' :: '"' :: '"' :: _ => some ['"', '"', '"']
  | '\'' :: '\'' :: '\'' :: _ => some ['\'', '\'', '\'']
  | '"' :: _ => some ['"']
  | '\'' :: _ => some ['\'']
  | _ => none

def leadingMark (s : Text) : Text :=
  (stringMarks.find? fun mark =>
    mark.isPrefixOf s && startsWithQuote (s.drop mark.length)).getD []

/-- The length of the opening of the string that a text starts with, marks and quote, and the
quote. -/
def stringOpening? (s : Text) : Option (Nat × Text) :=
  let mark := leadingMark s
  (leadingQuote? (s.drop mark.length)).map fun quote => (mark.length + quote.length, quote)

def closingLength? (quote : Text) : Text → Option Nat
  | [] => none
  | '\\' :: [] => none
  | '\\' :: _ :: rest => (closingLength? quote rest).map (· + 2)
  | c :: rest =>
    if quote.isPrefixOf (c :: rest) then some quote.length
    else (closingLength? quote rest).map (· + 1)

/-- Whether a character continues a number after the character before it; a sign does so after
the exponent letter of a decimal number. -/
def continuesNumber (hex : Bool) (previous c : Char) : Bool :=
  c.isAlphanum || c == '_' || c == '.' ||
    ((c == '+' || c == '-') && !hex && (previous == 'e' || previous == 'E'))

def numberTail (hex : Bool) : Char → Text → Nat
  | _, [] => 0
  | previous, c :: rest => if continuesNumber hex previous c then numberTail hex c rest + 1 else 0

def isHex : Text → Bool
  | '0' :: 'x' :: _ => true
  | '0' :: 'X' :: _ => true
  | _ => false

def startsName (c : Char) : Bool :=
  c == '_' || Character.isAlphabetic c

def continuesName (c : Char) : Bool :=
  c == '_' || Character.isAlphanumeric c

def startsWithBreak : Text → Bool
  | '\n' :: _ => true
  | '\r' :: '\n' :: _ => true
  | _ => false

def endsInBackslash (s : Text) : Bool :=
  ['\\'].isSuffixOf s.dropLineEnding

def startsNumber (c : Char) (rest : Text) : Bool :=
  c.isDigit ||
    (c == '.' &&
      match rest with
      | d :: _ => d.isDigit
      | [] => false)

inductive Lexeme where
  | token (kind : TokenKind) (more : Nat)
  | lineEnd
  /-- A backslash that joins the next line to this one. -/
  | continuation
  | openString (quote : Text)
deriving DecidableEq

def stringLexeme (s : Text) (opening : Nat) (quote : Text) : Lexeme :=
  match closingLength? quote (s.drop opening) with
  | some n => .token .string (opening + n - 1)
  | none =>
    if quote.length = 3 ∨ endsInBackslash s then .openString quote
    else .token .errorToken (opening - 1)

def lexeme (c : Char) (rest : Text) : Lexeme :=
  if c = '\n' ∨ c = '\r' then .lineEnd
  else if c = '#' then .token .comment (Text.dropLineEnding rest).length
  else if c = '\\' ∧ startsWithBreak rest then .continuation
  else if startsNumber c rest then .token .number (numberTail (isHex (c :: rest)) c rest)
  else
    match stringOpening? (c :: rest) with
    | some (opening, quote) => stringLexeme (c :: rest) opening quote
    | none =>
      if startsName c then .token .name (rest.takeWhile continuesName).length
      else
        match operatorLength (c :: rest) with
        | 0 => .token .errorToken 0
        | n + 1 => .token .op n

end DocstringFormat.Source
