import DocstringFormat.Docstring.Paragraph
import DocstringFormat.Markup.Field

/-!
Layout of field lists: each field on one line if it fits, and filled with a deeper indentation
otherwise.
-/

set_option autoImplicit false

namespace DocstringFormat.Docstring

open Markup (Span)

/-- Up to this many bytes an indentation is doubled for continuation lines. -/
def shallowIndent : Nat := 4

/-- The indentation of the continuation lines of a field: doubled, or half as much again when it
is already deep. -/
def continuationIndent (indent : Text) : Text :=
  if shallowIndent < indent.size then indent ++ List.replicate (indent.size / 2) ' '
  else indent ++ indent

def wrapField (name body indent : Text) (columns : Nat) : List Text :=
  let deeper := continuationIndent indent
  match Text.fill (name ++ body) columns indent deeper with
  | [] => []
  | first :: rest =>
    (indent ++ first.unwrap) :: rest.map (fun line => deeper ++ line.unwrap)

structure Field where
  name : Text
  segment : Text

def fieldsAt (s : Text) : List Span → List Field
  | [] => []
  | [span] => [⟨span.of s, s.dropBytes span.stop⟩]
  | span :: next :: rest =>
    ⟨span.of s, s.extract span.stop next.start⟩ :: fieldsAt s (next :: rest)

def splitAtBreak : Text → Text × Text
  | [] => ([], [])
  | '\n' :: '\n' :: rest => ([], '\n' :: '\n' :: rest)
  | c :: rest =>
    let (head, tail) := splitAtBreak rest
    (c :: head, tail)

/-- The body of a field as one line, with a space in front unless it opens with a backquote. -/
def joinBody (s : Text) : Text :=
  match s.unwrap with
  | [] => []
  | c :: rest => if c = '`' then c :: rest else ' ' :: c :: rest

/-- The paragraphs after a field, without an empty line at the end. -/
def trailingLines (trailing indent : Text) (columns : Nat) : List Text :=
  dropLastEmpty (fillParagraphs (trailing.dropWhile (· == '\n')) indent columns)

/-- The empty line between two fields; the last field has none. -/
def separator (isLast : Bool) : List Text :=
  if isLast then [] else [[]]

/-- The lines of one field and the paragraphs after it.  A field whose name is directly followed
by a paragraph break keeps that break. -/
def fieldLines (indent : Text) (columns : Nat) (field : Field) (isLast : Bool) : List Text :=
  let (head, trailing) := splitAtBreak field.segment
  if head.isEmpty && !trailing.isEmpty then
    let line := indent ++ field.name ++ ['\n']
    if trailing.isBlank then [line]
    else line :: trailingLines trailing indent columns ++ separator isLast
  else
    let body := joinBody head
    let ls :=
      if indent.size + field.name.size + body.size ≤ columns then [indent ++ field.name ++ body]
      else wrapField field.name body indent columns
    if !trailing.isBlank then
      ls ++ [[]] ++ trailingLines trailing indent columns ++ separator isLast
    else if !trailing.isEmpty then ls ++ separator isLast
    else ls

def fieldsLines (indent : Text) (columns : Nat) : List Field → List Text
  | [] => []
  | field :: rest =>
    fieldLines indent columns field rest.isEmpty ++ fieldsLines indent columns rest

/-- Lays out a text with fields after the lines that are already there.  The text from `offset`
up to the first field is prose. -/
def wrapFields (s : Text) (spans : List Span) (ls : List Text) (offset : Nat) (indent : Text)
    (columns : Nat) : List Text :=
  match spans with
  | [] => ls
  | first :: _ =>
    let intro := (s.extract? (min offset first.start) first.start).getD []
    ls ++ fillParagraphs intro indent columns ++ fieldsLines indent columns (fieldsAt s spans)

end DocstringFormat.Docstring
