import DocstringFormat.Character.Numeric
import DocstringFormat.Character.Uppercase
import DocstringFormat.Markup.LineKind
import DocstringFormat.Text.Fill

/-!
Summaries: the first sentence or paragraph of a docstring.

`split` cuts the contents of a docstring into summary and description, `normalize` ends the
summary with a period and starts it with a capital letter, and `wrapSummary` lays it out.
-/

set_option autoImplicit false

namespace DocstringFormat.Docstring

/-- Whether a sentence ends where a blank follows what was read, given in reverse.  No sentence
ends with an abbreviation, and a colon ends one only at the end of a line. -/
def endsSentence (abbreviations : List Text) (read : Text) (blank : Char) : Bool :=
  !abbreviations.any (fun a => a.reverse.isPrefixOf read) &&
    match read with
    | '.' :: _ | '?' :: _ | '!' :: _ => true
    | ':' :: _ => blank == '\n'
    | _ => false

def firstSentenceFrom (abbreviations : List Text) : Text → Text → Text × Text
  | read, [] => (read.reverse, [])
  | read, c :: rest =>
    if Character.isBlank c then
      if endsSentence abbreviations read c then (read.reverse, c :: rest)
      else if rest.isEmpty then (read.reverse, [])
      else firstSentenceFrom abbreviations (c :: read) rest
    else firstSentenceFrom abbreviations (c :: read) rest

/-- The first sentence of a text and what follows it, the blank after the sentence included.
Without an end of sentence the text is one sentence, less one blank at its very end. -/
def firstSentence (abbreviations : List Text) (s : Text) : Text × Text :=
  firstSentenceFrom abbreviations [] s

def startsDescription (line : Text) : Bool :=
  line.isBlank || Markup.isSentenceStart line

def splitLines? : List Text → Option (List Text × List Text)
  | [] => none
  | first :: rest =>
    match rest.dropWhile (fun line => !startsDescription line) with
    | [] => none
    | tail => some (first :: rest.takeWhile (fun line => !startsDescription line), tail)

/-- Splits contents into summary and description: at the first line that starts a description,
or else after the first sentence.  Contents that cannot be split are all summary. -/
def split (abbreviations : List Text) (contents : Text) : Text × Text :=
  match splitLines? contents.trimEnd.lines with
  | some (summary, description) =>
    (Text.trim (Text.unlines summary), Text.trimEnd (Text.unlines description))
  | none =>
    let (sentence, rest) := firstSentence abbreviations contents
    if !sentence.isBlank && !rest.isBlank then
      (sentence.trim, Text.shortestIndentation (rest.lines.drop 1) ++ rest.trim)
    else (contents, [])

/-- Whether a summary wants a period: it ends in a letter, a digit or a quote, and is no
comment. -/
def wantsPeriod (s : Text) : Bool :=
  match s.getLast? with
  | none => false
  | some c =>
    (Character.isAlphanumeric c || c == '"' || c == '\'') && s.head? != some '#'

def addPeriod (s : Text) : Text :=
  if wantsPeriod s then s ++ ['.'] else s

def firstWord (s : Text) : Text :=
  s.takeWhile (· != ' ')

def bareWord (w : Text) : Text :=
  w.dropEndWhile (fun c => c ∈ ['.', ',', ';', ':', '!', '?'])

/-- Whether the first letter of a summary stays: the first word is an identifier or a file name,
or it is listed in `nonCap`. -/
def keepsCase (nonCap : List Text) (s : Text) : Bool :=
  let word := firstWord s
  let bare := bareWord word
  bare.any (fun c => c == '_' || c == '.') || nonCap.any (fun w => w == bare || w == word)

def capitalize : Text → Text
  | [] => []
  | c :: rest => Character.uppercase c ++ rest

/-- Ends a summary with a period and starts it with a capital letter. -/
def normalizeSummary (nonCap : List Text) (summary : Text) : Text :=
  let s := addPeriod summary.trimEnd
  if keepsCase nonCap s then s else capitalize s

/-- Lays a summary out in lines of at most `columns`; zero columns leave it as it is. -/
def wrapSummary (summary initial subsequent : Text) (columns : Nat) : Text :=
  if columns = 0 then summary
  else Text.trim (Text.unlines (Text.fill summary.unwrap columns initial subsequent))

end DocstringFormat.Docstring
