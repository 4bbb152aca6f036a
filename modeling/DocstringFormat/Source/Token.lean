import DocstringFormat.Text.Line

/-!
Tokens of Python source.

A token knows its place and the physical lines that it stands on, so that the text between two
tokens can be recovered.
-/

set_option autoImplicit false

namespace DocstringFormat.Source

inductive TokenKind where
  | encoding
  | name
  | number
  | string
  | op
  | comment
  | newline
  /-- A line break inside a logical line or on a line without code. -/
  | nl
  | indent
  | dedent
  | errorToken
  | endMarker
deriving DecidableEq

namespace TokenKind

def all : List TokenKind :=
  [encoding, name, number, string, op, comment, newline, nl, indent, dedent, errorToken, endMarker]

def label : TokenKind → Text
  | encoding => "ENCODING".toList
  | name => "NAME".toList
  | number => "NUMBER".toList
  | string => "STRING".toList
  | op => "OP".toList
  | comment => "COMMENT".toList
  | newline => "NEWLINE".toList
  | nl => "NL".toList
  | indent => "INDENT".toList
  | dedent => "DEDENT".toList
  | errorToken => "ERRORTOKEN".toList
  | endMarker => "ENDMARKER".toList

def ofLabel? (s : Text) : Option TokenKind :=
  all.find? (fun kind => kind.label == s)

def isTrivia : TokenKind → Bool
  | indent | dedent | nl | comment | encoding => true
  | _ => false

end TokenKind

/-- A place in a source: rows count from one, columns are byte offsets from zero. -/
structure Place where
  row : Nat
  column : Nat
deriving DecidableEq

structure Token where
  kind : TokenKind
  text : Text
  start : Place
  stop : Place
  /-- All physical lines that the token stands on, with their endings. -/
  line : Text
deriving DecidableEq

namespace Token

def firstLine (t : Token) : Text :=
  t.line.takeWhile (· != '\n')

def lineIndent (t : Token) : Text :=
  t.firstLine.leadingBlanks

def isBlankLine (t : Token) : Bool :=
  t.kind == .nl && t.line.isBlank

def isOp (t : Token) (s : Text) : Bool :=
  t.kind == .op && t.text == s

def isName (t : Token) (s : Text) : Bool :=
  t.kind == .name && t.text == s

end Token

end DocstringFormat.Source
