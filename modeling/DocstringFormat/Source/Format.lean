import DocstringFormat.Docstring.Format
import DocstringFormat.Source.Block
import DocstringFormat.Source.Render
import DocstringFormat.Source.Scan

/-!
Formatting of a whole source.

Docstrings are formatted token by token, blank lines around them are dropped, and the tokens are
put together again.  All else stays as it is.
-/

set_option autoImplicit false

namespace DocstringFormat.Source

open Docstring (Subject)

def inRange (range : Option RowRange) (first last : Nat) : Bool :=
  match range with
  | none => true
  | some r => r.first ≤ last && first ≤ r.last

def hasLength (range : Option RowRange) (first last : Nat) : Bool :=
  match range with
  | none => true
  | some r => r.contains (last + 1 - first)

def checkLength (range : Option RowRange) (first last : Nat) : Except Fault Bool :=
  if range.isSome ∧ (wordLimit ≤ last + 1 ∨ last + 1 < first) then .error .overflow
  else .ok (hasLength range first last)

def inScope (o : Options) (t : Token) : Bool :=
  inRange o.lineRange t.start.row t.stop.row && hasLength o.lengthRange t.start.row t.stop.row

/-- Whether a token opens a block of code: it follows an indentation or the end of a logical
line, or only comments stand before it. -/
def Site.opensBlock (s : Site) : Bool :=
  (match s.before with
    | [] => false
    | n :: _ => n.token.kind == .indent || n.token.kind == .newline) ||
  s.before.all fun n => n.token.kind ∈ [.comment, .nl, .newline, .encoding]

/-- Whether a token is a docstring that is formatted; `documented` lists the numbers of the
docstrings of all blocks. -/
def Site.isEligible (o : Options) (documented : List Nat) (s : Site) : Bool :=
  s.isCandidate && (s.opensBlock || documented.contains s.index) && inScope o s.token

def Site.format (o : Options) (documented : List Nat) (s : Site) : Traced Token :=
  if s.isEligible o documented then do
    let text ← Docstring.format o s.token.lineIndent s.token.text
    if text = s.token.text then return s.token
    else
      Traced.report (.rewroteDocstring s.token.start.row)
      return { s.token with text := text }
  else Traced.pure s.token

def formatSites (o : Options) (documented : List Nat) : List Site → Traced (List Token)
  | [] => Traced.pure []
  | s :: rest => do
    let t ← s.format o documented
    let ts ← formatSites o documented rest
    return t :: ts

def blanksBefore (s : Site) : List Nat :=
  ((s.before.takeWhile fun n => n.token.kind ∈ [.indent, .nl, .comment]).filter
    (fun n => n.token.isBlankLine)).map Numbered.index

def endsBody (tokens : List Token) : Bool :=
  match tokens.find? (fun t => t.kind != .nl && t.kind != .comment) with
  | none => true
  | some t => t.kind == .dedent || t.kind == .endMarker

/-- The blank lines after a docstring, the first of which stays when the docstring is all there
is to the body. -/
def blanksAfter (s : Site) : List Nat :=
  let comments := (s.after.takeWhile (fun t => t.kind == .comment)).length
  match s.after.drop comments with
  | [] => []
  | newline :: rest =>
    if newline.kind ≠ .newline then []
    else
      let count := (rest.takeWhile Token.isBlankLine).length
      let first := s.index + comments + 2
      let kept := if endsBody (rest.drop count) then 1 else 0
      (List.range (count - kept)).map (fun i => first + kept + i)

/-- The blank lines that the layout of one docstring drops. -/
def blanksAround (subject : Subject) (s : Site) : List Nat :=
  match subject with
  | .wholeModule => []
  | .assignment => blanksBefore s
  | .classDef | .functionDef => blanksBefore s ++ blanksAfter s

def droppedBlanks (o : Options) (bs : List Block) (ss : List Site) : List Nat :=
  let documented := bs.map Block.docstring
  (ss.filter (fun s => s.isEligible o documented)).flatMap fun s =>
    match bs.find? (fun b => b.docstring == s.index) with
    | none => []
    | some b => blanksAround b.subject s

/-- The items of a list whose numbers are not listed, the first having the number `index`. -/
def withoutIndices {α : Type} (dropped : List Nat) (index : Nat) : List α → List α
  | [] => []
  | a :: rest =>
    if dropped.contains index then withoutIndices dropped (index + 1) rest
    else a :: withoutIndices dropped (index + 1) rest

/-- Formats tokens: docstrings laid out anew, blank lines around them dropped. -/
def formatTokens (o : Options) (tokens : List Token) : Traced (List Token) := do
  Traced.reportAll (blockEvents tokens)
  let bs := blocks tokens
  let ss := sites tokens
  let formatted ← formatSites o (bs.map Block.docstring) ss
  return withoutIndices (droppedBlanks o bs ss) 0 formatted

/-- Formats a source whose lines end with line feeds. -/
def formatCode (o : Options) (source : Text) : Traced (Except Error Text) :=
  match tokenize source with
  | .error cause => Traced.pure (.error cause)
  | .ok tokens => do
    let formatted ← formatTokens o tokens
    return .ok (render formatted)

/-- Formats a source, or reports why it cannot be read.  All lines get the ending that most of
them have. -/
def tryFormat (o : Options) (source : Text) : Traced (Except Error Text) :=
  if source.isEmpty then Traced.pure (.ok [])
  else
    let ls := source.terminatedLines
    match Text.LineEnding.dominant ls with
    | .lf => formatCode o (Text.terminateAll ['\n'] ls)
    | newline => do
      match ← formatCode o (Text.terminateAll ['\n'] ls) with
      | .error cause => return .error cause
      | .ok formatted =>
        return .ok (Text.terminateAll newline.text formatted.terminatedLines)

def format (o : Options) (source : Text) : Traced Text := do
  match ← tryFormat o source with
  | .ok formatted => return formatted
  | .error cause =>
    Traced.report (.leftSource cause)
    return source

end DocstringFormat.Source
