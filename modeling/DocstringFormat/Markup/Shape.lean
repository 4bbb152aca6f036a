import DocstringFormat.Markup.LineKind

/-!
The shape of a block of text: what in it forbids that its lines are filled.
-/

set_option autoImplicit false

namespace DocstringFormat.Markup

open Character (isBlank isWord)

def numpySections : List Text :=
  ["Parameters", "Returns", "Raises", "Yields", "Warns", "Warnings", "Receives",
   "Other Parameters", "See Also", "Notes", "Examples", "References"].map String.toList

/-- Whether a text is a rule of one repeated dash or equals sign. -/
def isRule (s : Text) : Bool :=
  s.all (· == '-') || s.all (· == '=')

/-- A section title with a rule under it that is at least as long. -/
def isNumpyHeader (line next : Text) : Bool :=
  let title := line.trim
  let rule := next.trim
  numpySections.contains title && !rule.isEmpty && title.size ≤ rule.size && isRule rule

def hasNumpyHeaderIn : List Text → Bool
  | line :: next :: rest => isNumpyHeader line next || hasNumpyHeaderIn (next :: rest)
  | _ => false

def hasNumpyHeader (s : Text) : Bool :=
  hasNumpyHeaderIn s.lines

def hasSectionHeader (s : Text) : Bool :=
  s.lines.any isSectionAdornment

def isRoleChar (c : Char) : Bool :=
  isWord c || c == '.' || c == '~'

def isDirectiveName (s : Text) : Bool :=
  match s with
  | ' ' :: c :: _ => isRoleChar c || c == '-'
  | c :: _ => isRoleChar c || c == '-'
  | [] => false

def startsDirective (s : Text) : Bool :=
  match s with
  | '.' :: '.' :: rest => isDirectiveName rest
  | '`' :: '`' :: rest => isDirectiveName rest
  | '`' :: rest =>
    match rest.dropWhile isRoleChar with
    | '`' :: _ => rest.length ≠ (rest.dropWhile isRoleChar).length
    | _ => false
  | _ => false

/-- Whether a text holds a directive, an inline literal or a role. -/
def hasDirective (s : Text) : Bool :=
  s.anyEnd startsDirective

/-- Words longer than this, links apart, are taken for code. -/
def longestProseWord : Nat := 50

def isCodeLike (s : Text) : Bool :=
  s.words.any (fun w => longestProseWord < w.length && (linkLength? w).isNone)

/-- The number of characters of the widest line, outer blanks aside, and one at least. -/
def longestLine (ls : List Text) : Nat :=
  ls.foldl (fun n line => max n line.trim.length) 1

/-- Whether a block has so many lines for its width that it must be a list: more than two for
every five characters of its longest line. -/
def isHeuristicList (s : Text) : Bool :=
  let ls := s.trimEnd.lines
  2 * longestLine ls < 5 * ls.length

def isFieldList (style : Style) (s : Text) : Bool :=
  match style with
  | .sphinx => s.trimEnd.lines.any isSphinxField
  | .epytext => s.trimEnd.lines.any isEpytextField
  | .numpy | .google => false

def hasListLine (s : Text) : Bool :=
  s.trimEnd.lines.any (fun line => (LineKind.ofLine line).isListLike)

def beforeFields (style : Style) (s : Text) : Text :=
  match fieldSpans style s with
  | [] => s
  | field :: _ => s.takeBytes field.start

/-- Whether a text is some sort of list whose lines must stay.  Fields that the style can fill
do not count; then only the text before the first of them is looked at.  The shape alone
decides unless `nonStrict`. -/
def isList (s : Text) (nonStrict : Bool) (style : Style) : Bool :=
  (!nonStrict && isHeuristicList s) ||
    if isFieldList style s then hasListLine (beforeFields style s)
    else hasNumpyHeader s || hasListLine s

end DocstringFormat.Markup
