import DocstringFormat.Docstring.Description
import DocstringFormat.Docstring.Literal
import DocstringFormat.Docstring.Summary
import DocstringFormat.Event
import DocstringFormat.Options

/-!
Formatting of one docstring literal.

`leaveReason?` says when a literal is better left alone.  Every other literal is taken apart
into summary and description, and both are laid out between fresh quotes.
-/

set_option autoImplicit false

namespace DocstringFormat.Docstring

/-- Whether the first line is a title with a rule under it. -/
def isUnderlined (contents : Text) : Bool :=
  match contents.lines with
  | title :: rule :: _ =>
    !title.trim.isEmpty && title.trim.length ≤ rule.trim.length && Markup.isRule rule.trim
  | _ => false

def isLoneLink (s : Text) : Bool :=
  (Markup.leadingLink? s) == some s

/-- A text without a section adornment at its start.  An adornment is a first line of one
repeated character that is no letter and no digit; that character is dropped wherever it leads
on. -/
def dropAdornment (s : Text) : Text :=
  match s.trimStart with
  | [] => s
  | c :: rest =>
    let line : Text := ((Text.lines (c :: rest)).head?).getD []
    let inner := Text.dropEndWhile (· == c) (line.dropWhile (· == c))
    if Character.isAlphanumeric c || !inner.isBlank then s
    else (c :: rest).dropWhile (· == c)

/-- Why the contents of a literal are left alone, if they are. -/
def leaveReason? (o : Options) (contents : Text) : Option LeaveReason :=
  let (summary, description) := split o.abbreviations contents
  if Text.includes tripleDouble contents then some .nestedQuotes
  else if ['>', '>', '>'].isPrefixOf contents.trimStart then some .doctest
  else if isLoneLink contents then some .loneLink
  else if isUnderlined contents then some .sectionTitle
  else if (dropAdornment description).trim ≠ description.trim then some .adornedDescription
  else if !o.forceWrap &&
      (Markup.isList summary o.nonStrict o.style || Markup.hasDirective summary) then
    some .listLikeSummary
  else none

/-- What the tabs of an indentation take off the column limits. -/
def tabCompensation (o : Options) (indent : Text) : Except Fault Nat :=
  let n := indent.count '\t' * (o.tabWidth - 1)
  if n < wordLimit then .ok n else .error .overflow

def descriptionOptions (o : Options) (compensation : Nat) : DescriptionOptions :=
  ⟨o.wrapDescriptions - compensation, o.forceWrap, o.nonStrict, o.style⟩

def openingQuotes (o : Options) (opening : Text) : Text :=
  if o.preSummarySpace && !o.preSummaryNewline then opening ++ [' '] else opening

def layoutWithDescription (o : Options) (indent opening summary description : Text)
    (compensation : Nat) : Text :=
  let initial := if o.preSummaryNewline then indent else indent ++ [' ', ' ', ' ']
  let lead := if o.preSummaryNewline then '\n' :: indent else []
  let first := wrapSummary summary initial indent (o.wrapSummaries - compensation)
  let body := wrapDescription (descriptionOptions o compensation) description indent
  let after := if o.postDescriptionBlank then ['\n'] else []
  opening ++ lead ++ first ++ ['\n', '\n'] ++ body ++ after ++ ['\n'] ++ indent ++ tripleDouble

def layoutSummary (o : Options) (indent opening summary : Text) (compensation : Nat) : Text :=
  let columns := o.wrapSummaries - compensation
  if o.makeSummaryMultiLine then
    opening ++ ['\n'] ++ indent ++ wrapSummary summary indent indent columns ++ ['\n'] ++ indent ++
      tripleDouble
  else
    let line := wrapSummary (opening ++ summary ++ tripleDouble) indent indent columns
    if o.closeQuotesOnNewline && line.contains '\n' then
      (Text.before? tripleDouble line).getD line ++ ['\n'] ++ indent ++ tripleDouble
    else line

def descriptionEvents (o : DescriptionOptions) (description indent : Text) : List Event :=
  match treatment o description indent with
  | .keep _ => []
  | .reflow s =>
    match splitCounts? o.style s with
    | none => []
    | some (links, fields) => [.splitDescription links fields]

def format (o : Options) (indent literal : Text) : Traced Text :=
  match strip literal with
  | .error cause => do
    Traced.report (.leftDocstring (.unsupported cause))
    return literal
  | .ok ⟨opening, contents⟩ =>
    if contents.isEmpty then Traced.pure (opening ++ tripleDouble)
    else
      match leaveReason? o contents with
      | some reason => do
        Traced.report (.leftDocstring reason)
        return literal
      | none => do
        let compensation ← Traced.ofExcept (tabCompensation o indent)
        let (summary, description) := split o.abbreviations contents
        let quotes := openingQuotes o opening
        let summary := normalizeSummary o.nonCap summary
        if description.isEmpty then return layoutSummary o indent quotes summary compensation
        else
          Traced.reportAll
            (descriptionEvents (descriptionOptions o compensation) description indent)
          return layoutWithDescription o indent quotes summary description compensation

end DocstringFormat.Docstring
