import DocstringFormat.Text.Fill

/-!
Paragraphs of prose: blocks of lines with blank lines between them.
-/

set_option autoImplicit false

namespace DocstringFormat.Docstring

/-- The pieces of a text between paragraph breaks, each break being two line feeds. -/
def paragraphs : Text → List Text
  | [] => [[]]
  | '\n' :: '\n' :: rest => [] :: paragraphs rest
  | c :: rest =>
    match paragraphs rest with
    | [] => [[c]]
    | p :: ps => (c :: p) :: ps

def endsWithBreak (s : Text) : Bool :=
  ['\n', '\n'].isSuffixOf (s.dropEndWhile (fun c => c == ' ' || c == '\t'))

def dropLastEmpty (ls : List Text) : List Text :=
  match ls.getLast? with
  | some [] => ls.dropLast
  | _ => ls

def fillParagraph (indent : Text) (columns : Nat) (p : Text) : List Text :=
  Text.fill p.dedent columns indent indent

/-- The lines of one paragraph and the empty line after it.  A paragraph of blanks only has no
lines, and an empty one a single empty line. -/
def paragraphLines (indent : Text) (columns : Nat) (p : Text) : List Text :=
  match fillParagraph indent columns p with
  | [] => if p.isEmpty then [[]] else []
  | ls => ls ++ [[]]

/-- Fills the paragraphs of a text.  An empty line follows each paragraph; the last one stays
only where the text itself ends with a paragraph break. -/
def fillParagraphs (s indent : Text) (columns : Nat) : List Text :=
  if !Text.includes ['\n', '\n'] s then fillParagraph indent columns s
  else
    let ls := (paragraphs s).flatMap (paragraphLines indent columns)
    if endsWithBreak s then ls else dropLastEmpty ls

/-- The lines of a text, each with the indentation `indent` in place of its own; blank lines
become empty.  One line feed at the start is skipped. -/
def reindentLines (indent s : Text) : List Text :=
  let body : Text := (Text.after? ['\n'] s).getD s
  body.lines.map fun line => if line.isBlank then [] else indent ++ line.trim

end DocstringFormat.Docstring
