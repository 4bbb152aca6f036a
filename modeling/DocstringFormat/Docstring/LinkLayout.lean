import DocstringFormat.Docstring.Paragraph
import DocstringFormat.Fault
import DocstringFormat.Markup.Link

/-!
Layout of text with links: a link that does not fit stands on a line of its own.
-/

set_option autoImplicit false

namespace DocstringFormat.Docstring

open Markup (Link Span)

def linkLine (indent link : Text) : Text :=
  indent ++ Text.join [' '] (link.lines.map Text.trim)

/-- Puts a link on a line of its own.  A double quote that the line before ends with moves to
the line of the link. -/
def placeLink (indent link : Text) (ls : List Text) : List Text :=
  match ls.getLast?.bind (Text.before? ['"']) with
  | none => ls ++ [linkLine indent link]
  | some stripped =>
    let quoted := indent ++ ['"'] ++ Text.trimStart (linkLine indent link)
    if stripped.isBlank then ls.dropLast ++ [quoted]
    else ls.dropLast ++ [stripped.trimEnd, quoted]

structure LinkProgress where
  lines : List Text
  /-- The byte offset where the text that is not yet laid out starts. -/
  offset : Nat
deriving DecidableEq

/-- Lays out the text up to the end of one link.  A bare link, a link that was passed, and a
link that fits with the text before it are left for later. -/
def LinkProgress.step (s indent : Text) (columns : Nat) (done : LinkProgress) (link : Link) :
    LinkProgress :=
  if link.bare || link.span.start < done.offset then done
  else if (s.extract done.offset link.span.stop).length ≤ columns - indent.size then done
  else
    let filled :=
      done.lines ++ fillParagraphs (s.extract done.offset link.span.start) indent columns
    let kept := if endsWithBreak (s.takeBytes link.span.start) then filled else dropLastEmpty filled
    ⟨placeLink indent (link.span.of s) kept, link.span.stop⟩

def wrapLinks (s : Text) (links : List Link) (offset : Nat) (indent : Text) (columns : Nat) :
    LinkProgress :=
  links.foldl (LinkProgress.step s indent columns) ⟨[], offset⟩

/-- Lays out the text from any offset.  An offset inside a character is a fault, unless there is
no link after it. -/
def wrapLinksFrom (s : Text) (links : List Link) (offset : Nat) (indent : Text) (columns : Nat) :
    Except Fault LinkProgress :=
  if !s.isBoundary offset && links.any (fun l => !l.bare && offset ≤ l.span.start) then
    .error .insideCharacter
  else .ok (wrapLinks s links offset indent columns)

end DocstringFormat.Docstring
