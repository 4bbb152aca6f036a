import DocstringFormat.Docstring.FieldLayout
import DocstringFormat.Docstring.LinkLayout
import DocstringFormat.Markup.Shape

/-!
Descriptions: all of a docstring after its summary.

A description is filled paragraph by paragraph unless it holds something that filling would
damage: examples of a session, directives, lists, or words so long that they must be code.
-/

set_option autoImplicit false

namespace DocstringFormat.Docstring

open Markup (Link Span Style)

structure DescriptionOptions where
  /-- The column limit; zero columns mean that nothing is filled. -/
  columns : Nat
  /-- Whether lists, directives and code are filled too. -/
  forceWrap : Bool
  /-- Whether the shape of a block alone does not make it a list. -/
  nonStrict : Bool
  style : Style

/-- The ranges of the fields: from each name to the next, or to the end of the text. -/
def fieldEntries (total : Nat) : List Span → List Span
  | [] => []
  | [span] => [⟨span.start, total⟩]
  | span :: next :: rest => ⟨span.start, next.start⟩ :: fieldEntries total (next :: rest)

def proseLinks (style : Style) (s : Text) : List Link :=
  let entries := fieldEntries s.size (Markup.fieldSpans style s)
  (Markup.links s).filter fun link => !link.bare && !entries.any link.span.overlaps

def splitCounts? (style : Style) (s : Text) : Option (Nat × Nat) :=
  let links := (proseLinks style s).length
  let fields := (Markup.fieldSpans style s).length
  if links = 0 ∧ fields = 0 then none else some (links, fields)

/-- The lines of the text from an offset on, indented anew; an offset that is no boundary leaves
nothing. -/
def closingLines (s : Text) (offset : Nat) (indent : Text) : List Text :=
  reindentLines indent ((s.extract? offset s.size).getD [])

/-- The lines of a description.  Plain prose is filled; links that do not fit stand alone, and
fields are laid out one by one.  What follows the last such link is not filled when there are no
fields. -/
def descriptionLines (s indent : Text) (columns : Nat) (style : Style) : List Text :=
  let spans := Markup.fieldSpans style s
  match proseLinks style s, spans with
  | [], [] => fillParagraphs s indent columns
  | links, spans =>
    let done := wrapLinks s links 0 indent columns
    match spans with
    | [] => done.lines ++ closingLines s done.offset indent
    | spans => wrapFields s spans done.lines done.offset indent columns

inductive Treatment where
  | keep (text : Text)
  | reflow (text : Text)

def isFragile (o : DescriptionOptions) (s : Text) : Bool :=
  Markup.isCodeLike s || Markup.hasDirective s || Markup.isList s o.nonStrict o.style

/-- Decides on a description.  One with an example of a session is not even indented anew. -/
def treatment (o : DescriptionOptions) (description indent : Text) : Treatment :=
  let s := Text.dropLeadingBlankLines description
  if Text.includes ['>', '>', '>'] s then .keep s
  else
    let t := Text.trimEnd (Text.reindent indent s)
    if o.columns = 0 || (!o.forceWrap && isFragile o t) then .keep t else .reflow t

def wrapDescription (o : DescriptionOptions) (description indent : Text) : Text :=
  match treatment o description indent with
  | .keep s => s
  | .reflow s => indent ++ Text.trim (Text.unlines (descriptionLines s indent o.columns o.style))

end DocstringFormat.Docstring
