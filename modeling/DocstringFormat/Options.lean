import DocstringFormat.Error
import DocstringFormat.Markup.Style

/-!
Options: how docstrings are laid out, and which of them are touched at all.
-/

set_option autoImplicit false

namespace DocstringFormat

open Markup (Style)

structure RowRange where
  first : Nat
  last : Nat
deriving DecidableEq

namespace RowRange

def contains (r : RowRange) (n : Nat) : Bool :=
  r.first ≤ n && n ≤ r.last

/-- Checks a range that was given under a name: it starts at one or later, and not after its
end. -/
def validate (name : Text) (r : RowRange) : Except Error Unit :=
  if r.first = 0 then
    .error (.invalidOption (name ++ " values must be positive integers".toList))
  else if r.last < r.first then
    .error (.invalidOption
      ("first value of ".toList ++ name ++ " (".toList ++ Error.digits r.first ++
        ") must be less than or equal to the second (".toList ++ Error.digits r.last ++
        ")".toList))
  else .ok ()

end RowRange

def Markup.Style.ofName (s : Text) : Except Error Style :=
  match Style.ofName? s with
  | some style => .ok style
  | none =>
    .error (.invalidOption
      ("unknown docstring style '".toList ++ s.map Char.toLower ++
        "' (expected sphinx, epytext, numpy or google)".toList))

def defaultSummaryColumns : Nat := 79

def defaultDescriptionColumns : Nat := 72

def blackColumns : Nat := 88

def defaultAbbreviations : List Text :=
  ["e.g.", "i.e.", "Dr.", "Mr.", "Mrs.", "Ms.", "et. al.", "etc."].map String.toList

structure Options where
  /-- The column limit of summaries; zero turns wrapping off. -/
  wrapSummaries : Nat := defaultSummaryColumns
  /-- The column limit of descriptions; zero turns wrapping off. -/
  wrapDescriptions : Nat := defaultDescriptionColumns
  /-- The width of a tab in the indentation, taken off the limits. -/
  tabWidth : Nat := 1
  preSummaryNewline : Bool := false
  preSummarySpace : Bool := false
  postDescriptionBlank : Bool := false
  makeSummaryMultiLine : Bool := false
  /-- Whether the quotes after a wrapped lone summary get a line of their own. -/
  closeQuotesOnNewline : Bool := false
  /-- Whether lists, directives and code are filled too. -/
  forceWrap : Bool := false
  /-- Whether the shape of a block alone does not make it a list. -/
  nonStrict : Bool := false
  style : Style := .sphinx
  /-- Words that are not capitalized at the start of a summary. -/
  nonCap : List Text := []
  abbreviations : List Text := defaultAbbreviations
  black : Bool := false
  lineRange : Option RowRange := none
  lengthRange : Option RowRange := none
deriving DecidableEq

namespace Options

/-- Turns black mode on or off.  Turning it on adds the space after the quotes and widens the
limits that still have their default values. -/
def withBlack (o : Options) (on : Bool) : Options :=
  if on then
    { o with
      black := true
      wrapSummaries :=
        if o.wrapSummaries = defaultSummaryColumns then blackColumns else o.wrapSummaries
      wrapDescriptions :=
        if o.wrapDescriptions = defaultDescriptionColumns then blackColumns
        else o.wrapDescriptions
      preSummarySpace := true }
  else { o with black := false }

/-- Checks that the ranges are in order and the tab width is positive. -/
def validate (o : Options) : Except Error Unit := do
  if let some r := o.lineRange then r.validate "--range".toList
  if let some r := o.lengthRange then r.validate "--docstring-length".toList
  if o.tabWidth = 0 then .error (.invalidOption "--tab-width must be at least 1".toList)

end Options

end DocstringFormat
