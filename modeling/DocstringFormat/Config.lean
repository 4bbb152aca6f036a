import DocstringFormat.Options
import DocstringFormat.Toml.Document

/-!
Settings from a configuration file.

The settings stand in the table `tool.docformatter` of a TOML document.  A setting that is not
there leaves the option as it is.
-/

set_option autoImplicit false

namespace DocstringFormat

open Toml (Value)

structure Config where
  wrapSummaries : Option Nat := none
  wrapDescriptions : Option Nat := none
  tabWidth : Option Nat := none
  preSummaryNewline : Option Bool := none
  preSummarySpace : Option Bool := none
  postDescriptionBlank : Option Bool := none
  makeSummaryMultiLine : Option Bool := none
  closeQuotesOnNewline : Option Bool := none
  forceWrap : Option Bool := none
  nonStrict : Option Bool := none
  style : Option Text := none
  nonCap : Option (List Text) := none
  black : Option Bool := none
  range : Option RowRange := none
  docstringLength : Option RowRange := none
  exclude : Option (List Text) := none
  recursive : Option Bool := none
  inPlace : Option Bool := none
  check : Option Bool := none
  diff : Option Bool := none
deriving DecidableEq

def configFileName : Text := "pyproject.toml".toList

namespace Config

def natural? : Value → Option Nat
  | .integer n => if 0 ≤ n then some n.toNat else none
  | _ => none

def boolean? : Value → Option Bool
  | .boolean b => some b
  | _ => none

def string? : Value → Option Text
  | .string s => some s
  | _ => none

def strings? : Value → Option (List Text)
  | .array vs => vs.mapM string?
  | _ => none

def range? : Value → Option RowRange
  | .array (a :: b :: _) => do return ⟨← natural? a, ← natural? b⟩
  | _ => none

abbrev Setter := Config → Value → Option Config

/-- The settings by name, in the order in which an array gives them. -/
def setters : List (Text × Setter) :=
  [("wrap-summaries".toList,
      fun c v => (natural? v).map fun n => { c with wrapSummaries := some n }),
   ("wrap-descriptions".toList,
      fun c v => (natural? v).map fun n => { c with wrapDescriptions := some n }),
   ("tab-width".toList,
      fun c v => (natural? v).map fun n => { c with tabWidth := some n }),
   ("pre-summary-newline".toList,
      fun c v => (boolean? v).map fun b => { c with preSummaryNewline := some b }),
   ("pre-summary-space".toList,
      fun c v => (boolean? v).map fun b => { c with preSummarySpace := some b }),
   ("post-description-blank".toList,
      fun c v => (boolean? v).map fun b => { c with postDescriptionBlank := some b }),
   ("make-summary-multi-line".toList,
      fun c v => (boolean? v).map fun b => { c with makeSummaryMultiLine := some b }),
   ("close-quotes-on-newline".toList,
      fun c v => (boolean? v).map fun b => { c with closeQuotesOnNewline := some b }),
   ("force-wrap".toList,
      fun c v => (boolean? v).map fun b => { c with forceWrap := some b }),
   ("non-strict".toList,
      fun c v => (boolean? v).map fun b => { c with nonStrict := some b }),
   ("style".toList,
      fun c v => (string? v).map fun s => { c with style := some s }),
   ("non-cap".toList,
      fun c v => (strings? v).map fun ss => { c with nonCap := some ss }),
   ("black".toList,
      fun c v => (boolean? v).map fun b => { c with black := some b }),
   ("range".toList,
      fun c v => (range? v).map fun r => { c with range := some r }),
   ("docstring-length".toList,
      fun c v => (range? v).map fun r => { c with docstringLength := some r }),
   ("exclude".toList,
      fun c v => (strings? v).map fun ss => { c with exclude := some ss }),
   ("recursive".toList,
      fun c v => (boolean? v).map fun b => { c with recursive := some b }),
   ("in-place".toList,
      fun c v => (boolean? v).map fun b => { c with inPlace := some b }),
   ("check".toList,
      fun c v => (boolean? v).map fun b => { c with check := some b }),
   ("diff".toList,
      fun c v => (boolean? v).map fun b => { c with diff := some b })]

/-- Takes over one named setting; an unknown name is refused. -/
def setNamed (c : Config) (entry : Text × Value) : Option Config :=
  (setters.lookup entry.1).bind fun set => set c entry.2

def ofValue? : Value → Option Config
  | .table entries => entries.foldlM setNamed {}
  | .array vs => (setters.zip vs).foldlM (fun c entry => entry.1.2 c entry.2) {}
  | _ => none

def ofTool? : Value → Option Config
  | .table entries =>
    match entries.lookup "docformatter".toList with
    | none => some {}
    | some v => ofValue? v
  | .array (v :: _) => ofValue? v
  | _ => none

def ofDocument? (s : Text) : Option Config :=
  (Toml.parse s).bind fun entries =>
    match entries.lookup "tool".toList with
    | none => some {}
    | some v => ofTool? v

def ofText (s path : Text) : Except Error Config :=
  match ofDocument? s with
  | some c => .ok c
  | none => .error (.config path "invalid settings".toList)

/-- Lays the settings over options.  Black mode comes first, so that a width of its own wins over
that of the mode. -/
def apply (c : Config) (o : Options) : Except Error Options := do
  let o := match c.black with
    | some on => o.withBlack on
    | none => o
  let style ← match c.style with
    | some name => Markup.Style.ofName name
    | none => .ok o.style
  return { o with
    wrapSummaries := c.wrapSummaries.getD o.wrapSummaries
    wrapDescriptions := c.wrapDescriptions.getD o.wrapDescriptions
    tabWidth := c.tabWidth.getD o.tabWidth
    preSummaryNewline := c.preSummaryNewline.getD o.preSummaryNewline
    preSummarySpace := c.preSummarySpace.getD o.preSummarySpace
    postDescriptionBlank := c.postDescriptionBlank.getD o.postDescriptionBlank
    makeSummaryMultiLine := c.makeSummaryMultiLine.getD o.makeSummaryMultiLine
    closeQuotesOnNewline := c.closeQuotesOnNewline.getD o.closeQuotesOnNewline
    forceWrap := c.forceWrap.getD o.forceWrap
    nonStrict := c.nonStrict.getD o.nonStrict
    style := style
    nonCap := c.nonCap.getD o.nonCap
    lineRange := c.range <|> o.lineRange
    lengthRange := c.docstringLength <|> o.lengthRange }

end Config

end DocstringFormat
