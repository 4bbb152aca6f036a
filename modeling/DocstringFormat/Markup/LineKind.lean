import DocstringFormat.Character.Numeric
import DocstringFormat.Markup.Field

/-!
Kinds of lines.

Each recogniser says whether one line of a description has the form of some piece of markup.
A line that is part of a list, a field or a section keeps its layout; prose may be filled.
-/

set_option autoImplicit false

namespace DocstringFormat.Markup

open Character (isBlank isWord isDecimalDigit)

/-- Characters that may stand inside a line of markup: all but blanks other than the space. -/
def isInlineChar (c : Char) : Bool :=
  !isBlank c || c == ' '

def isBullet (line : Text) : Bool :=
  match line.trimStart with
  | mark :: ' ' :: c :: _ => mark ∈ ['*', '-', '+'] && isInlineChar c
  | _ => false

def isEnumerated (line : Text) : Bool :=
  let s := line.trimStart
  match s.dropWhile isDecimalDigit with
  | '.' :: _ => s.length ≠ (s.dropWhile isDecimalDigit).length
  | _ => false

def isWideGap (s : Text) : Bool :=
  2 ≤ (s.takeWhile (· == ' ')).length &&
    match s.dropWhile (· == ' ') with
    | [] => false
    | c :: _ => !isBlank c

def isFlagChar (c : Char) : Bool :=
  isWord c || c == '-'

def isFlagValueChar (c : Char) : Bool :=
  isFlagChar c || c ∈ ['<', '>', '[', ']']

/-- `-a  description` or `--flag=VALUE  description`. -/
def isOption (line : Text) : Bool :=
  match line.trimStart with
  | '-' :: s =>
    let rest := s.dropWhile isFlagChar
    s.length ≠ rest.length &&
      (isWideGap rest ||
        match rest with
        | c :: value =>
          let tail := value.dropWhile isFlagValueChar
          (c == '=' || c == ' ') && value.length ≠ tail.length && isWideGap tail
        | [] => false)
  | _ => false

/-- A line whose last two characters, blanks aside, are colons. -/
def isLiteralBlock (line : Text) : Bool :=
  match Text.before? [':', ':'] line.trimEnd with
  | none => false
  | some s => s.all isInlineChar

def isAlembicHeader (line : Text) : Bool :=
  ["Revision ID:", "Revises:", "Create Date:"].any
    (fun header => header.toList.isPrefixOf line.trimStart)

/-- A title of simple characters with a colon at the very end. -/
def isGoogleHeader (line : Text) : Bool :=
  match Text.before? [':'] line with
  | none => false
  | some title => !title.isEmpty && title.all isNameChar

/-- ` name : type`, indented by one blank. -/
def isNumpyField (line : Text) : Bool :=
  match line with
  | [] => false
  | lead :: s =>
    isBlank lead &&
      match s.dropWhile isNameChar with
      | ':' :: ' ' :: c :: _ => s.length ≠ (s.dropWhile isNameChar).length && !isBlank c
      | _ => false

def isSphinxField (line : Text) : Bool :=
  (sphinxName? line.trimStart).isSome

def isEpytextField (line : Text) : Bool :=
  (epytextName? line.trimStart).isSome

/-- A dash with spaces around it and a character that is not blank after it. -/
def isDashBody (s : Text) : Bool :=
  match s with
  | ' ' :: '-' :: ' ' :: c :: _ => !isBlank c
  | _ => false

def isDashField (line : Text) : Bool :=
  match line.takeWhile isInlineChar with
  | [] => false
  | _ :: s => Text.anyEnd isDashBody s

def isDoubleDashField (line : Text) : Bool :=
  let s := line.trimStart
  let gap : Text := s.dropWhile (fun c => !isBlank c)
  !s.isEmpty && !gap.isEmpty &&
    match gap.trimStart with
    | '-' :: '-' :: c :: _ => isBlank c
    | _ => false

def isAtField (line : Text) : Bool :=
  match line.dropWhile (· == ' ') with
  | '@' :: s => s.all (fun c => c ≠ ':' && c ≠ '\n')
  | _ => false

/-- `term - body`, `term -- body` or `@term body`. -/
def isUserField (line : Text) : Bool :=
  isDashField line || isDoubleDashField line || isAtField line

def isInlineMath (line : Text) : Bool :=
  match line.dropWhile (· == ' ') with
  | c :: s =>
    isWord c &&
      match s.dropWhile (· == ' ') with
      | ':' :: t => (closedRun? isNameChar t).isSome
      | _ => false
  | [] => false

/-- The characters that underline or frame a section title. -/
def adornments : List Char :=
  ['#', '*', '=', '-', '^', '\'', '"', '+', '_', '~', '`', '.', ':']

/-- A line of one repeated adornment character, at least four of them. -/
def isSectionAdornment (line : Text) : Bool :=
  match line.trim with
  | [] => false
  | c :: s => c ∈ adornments && 3 ≤ s.length && s.all (· == c)

def isSentenceStart (line : Text) : Bool :=
  match line.trimStart with
  | [] => false
  | c :: _ => c == '-' || c == '@' || c == ')'

inductive LineKind where
  | bullet
  | enumerated
  | option
  | literalBlock
  | sphinx
  | epytext
  | numpyField
  | googleHeader
  | sectionAdornment
  | alembic
  | userField
  | inlineMath
  | link
  | prose
deriving DecidableEq

namespace LineKind

def isListLike : LineKind → Bool
  | link | prose => false
  | _ => true

/-- The kinds other than prose with their recognisers; the first that applies wins. -/
def recognisers : List (LineKind × (Text → Bool)) :=
  [(sectionAdornment, isSectionAdornment), (sphinx, isSphinxField), (epytext, isEpytextField),
   (alembic, isAlembicHeader), (option, isOption), (bullet, isBullet),
   (enumerated, isEnumerated), (literalBlock, isLiteralBlock), (googleHeader, isGoogleHeader),
   (numpyField, isNumpyField), (link, startsWithLink), (inlineMath, isInlineMath),
   (userField, isUserField)]

def ofLine (line : Text) : LineKind :=
  match recognisers.find? (fun entry => entry.2 line) with
  | some entry => entry.1
  | none => prose

end LineKind

end DocstringFormat.Markup
