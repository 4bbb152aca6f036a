import DocstringFormat.Source.Token

/-!
From tokens back to source text.

The text between two tokens of one row is recovered from the physical line, and a backslash that
joins two rows from the end of the line before.
-/

set_option autoImplicit false

namespace DocstringFormat.Source

structure Cursor where
  place : Place
  /-- The physical lines of the last token that has any. -/
  line : Text
  significant : Option TokenKind

def Cursor.start : Cursor :=
  ⟨⟨0, 0⟩, [], none⟩

def isJoined (line : Text) : Bool :=
  ['\\', '\n'].isSuffixOf line || ['\\', '\r', '\n'].isSuffixOf line

def joinedEnd (line : Text) : Text :=
  (line.reverse.takeWhile (fun c => c ∈ [' ', '\t', '\r', '\n', '\\'])).reverse

def Cursor.gap (cur : Cursor) (t : Token) : Text :=
  let isNewRow := cur.place.row < t.start.row
  let joint :=
    if isNewRow ∧ isJoined cur.line ∧ cur.significant ≠ some .comment then joinedEnd cur.line
    else []
  let column := if isNewRow then 0 else cur.place.column
  let spacing :=
    if column < t.start.column then (t.line.extract? column t.start.column).getD [] else []
  joint ++ spacing

def isLayout (kind : TokenKind) : Bool :=
  kind == .newline || kind == .nl || kind == .indent || kind == .dedent

def Cursor.advance (cur : Cursor) (t : Token) : Cursor :=
  ⟨t.stop, if t.line.isEmpty then cur.line else t.line,
    if isLayout t.kind then cur.significant else some t.kind⟩

def renderFrom : Cursor → List Token → Text
  | _, [] => []
  | cur, t :: rest =>
    if t.kind = .encoding then renderFrom cur rest
    else cur.gap t ++ t.text ++ renderFrom (cur.advance t) rest

def render (tokens : List Token) : Text :=
  renderFrom .start tokens

end DocstringFormat.Source
