import DocstringFormat.Config
import DocstringFormat.Files.Run

/-!
What a command line asks for, and how it goes together with a configuration file.

The layers are the defaults, the file and the command line.  A value on the command line wins over
the file; a switch on the command line can only turn something on.
-/

set_option autoImplicit false

namespace DocstringFormat.Command

open Files (RunOptions)
open Markup (Style)

structure Arguments where
  files : List Text := []
  inPlace : Bool := false
  check : Bool := false
  diff : Bool := false
  recursive : Bool := false
  exclude : List Text := []
  wrapSummaries : Option Nat := none
  wrapDescriptions : Option Nat := none
  tabWidth : Option Nat := none
  preSummaryNewline : Bool := false
  preSummarySpace : Bool := false
  postDescriptionBlank : Bool := false
  makeSummaryMultiLine : Bool := false
  closeQuotesOnNewline : Bool := false
  forceWrap : Bool := false
  nonStrict : Bool := false
  style : Option Style := none
  nonCap : List Text := []
  black : Bool := false
  /-- The numbers given for the rows that a docstring has to touch. -/
  range : List Nat := []
  docstringLength : List Nat := []
  config : Option Text := none
  verbose : Bool := false
deriving DecidableEq

def rangeOf? : List Nat → Option RowRange
  | [a, b] => some ⟨a, b⟩
  | _ => none

namespace Arguments

/-- Lays the command line over options. -/
def apply (a : Arguments) (o : Options) : Options :=
  let o := if a.black then o.withBlack true else o
  { o with
    wrapSummaries := a.wrapSummaries.getD o.wrapSummaries
    wrapDescriptions := a.wrapDescriptions.getD o.wrapDescriptions
    tabWidth := a.tabWidth.getD o.tabWidth
    preSummaryNewline := a.preSummaryNewline || o.preSummaryNewline
    preSummarySpace := a.preSummarySpace || o.preSummarySpace
    postDescriptionBlank := a.postDescriptionBlank || o.postDescriptionBlank
    makeSummaryMultiLine := a.makeSummaryMultiLine || o.makeSummaryMultiLine
    closeQuotesOnNewline := a.closeQuotesOnNewline || o.closeQuotesOnNewline
    forceWrap := a.forceWrap || o.forceWrap
    nonStrict := a.nonStrict || o.nonStrict
    style := a.style.getD o.style
    nonCap := if a.nonCap.isEmpty then o.nonCap else a.nonCap
    lineRange := rangeOf? a.range <|> o.lineRange
    lengthRange := rangeOf? a.docstringLength <|> o.lengthRange }

def options (a : Arguments) (c : Config) : Except Error Options := do
  let o := a.apply (← c.apply {})
  o.validate
  return o

/-- What is done with each file, for a command line and a configuration file. -/
def runOptions (a : Arguments) (c : Config) : RunOptions where
  inPlace := a.inPlace || c.inPlace.getD false
  check := a.check || c.check.getD false
  diff := a.diff || c.diff.getD false
  recursive := a.recursive || c.recursive.getD false
  exclude := c.exclude.getD [] ++ a.exclude

end Arguments

end DocstringFormat.Command
