import DocstringFormat.Markup.Link
import DocstringFormat.Markup.Style
import DocstringFormat.Text.Line

/-!
Field lists.

A field opens with its name: `:param x:` in the Sphinx style and `@param x:` in the Epytext
style.  The name has to be the first thing on its line.
-/

set_option autoImplicit false

namespace DocstringFormat.Markup

def sphinxFields : List Text :=
  ["arg", "cvar", "except", "ivar", "key", "meta", "param", "raise", "return", "rtype", "type",
   "var", "yield"].map String.toList

/-- The characters of simple names: ASCII letters and digits, `_`, `-` and the space. -/
def isNameChar (c : Char) : Bool :=
  c.isAlphanum || c == '_' || c == '-' || c == ' '

def isSphinxChar (c : Char) : Bool :=
  isNameChar c || c ∈ ['*', '(', ')', '.', ',', '[', ']']

def closedRun? (p : Char → Bool) (s : Text) : Option Text :=
  match s.dropWhile p with
  | ':' :: _ => some (s.takeWhile p ++ [':'])
  | _ => none

def sphinxName? : Text → Option Text
  | ':' :: s =>
    if sphinxFields.any (fun field => field.isPrefixOf s) then
      (closedRun? isSphinxChar s).map (':' :: ·)
    else none
  | _ => none

def epytextName? : Text → Option Text
  | '@' :: s => (closedRun? isNameChar s).map ('@' :: ·)
  | _ => none

def Style.fieldName? : Style → Text → Option Text
  | .sphinx => sphinxName?
  | .epytext => epytextName?
  | .numpy => fun _ => none
  | .google => fun _ => none

def fieldMargin (line : Text) : Text :=
  line.takeWhile (fun c => c == ' ' || c == '\t')

def fieldSpan? (style : Style) (offset : Nat) (line : Text) : Option Span :=
  let lead := fieldMargin line
  (style.fieldName? (line.drop lead.length)).map fun name =>
    ⟨offset + lead.size, offset + lead.size + name.size⟩

/-- The field names of lines, the first of which stands at an offset. -/
def fieldSpansFrom (style : Style) : Nat → List Text → List Span
  | _, [] => []
  | offset, line :: rest =>
    let later := fieldSpansFrom style (offset + line.size) rest
    match fieldSpan? style offset line with
    | none => later
    | some span => span :: later

def fieldSpans (style : Style) (s : Text) : List Span :=
  fieldSpansFrom style 0 s.rawLines

end DocstringFormat.Markup
