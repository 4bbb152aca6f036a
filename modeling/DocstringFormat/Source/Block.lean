import DocstringFormat.Docstring.Literal
import DocstringFormat.Docstring.Subject
import DocstringFormat.Event
import DocstringFormat.Source.Token

/-!
Docstring blocks: which strings are docstrings, and what they document.

A docstring is a triple-quoted string that is a statement of its own.  What it documents is read
off the logical line before it: nothing at all for a module, the header of a class or a function
with its decorators, or an assignment.
-/

set_option autoImplicit false

namespace DocstringFormat.Source

open Docstring (Subject)

structure Numbered where
  index : Nat
  token : Token
deriving DecidableEq

structure Site where
  index : Nat
  before : List Numbered
  token : Token
  after : List Token

def sitesFrom (index : Nat) (before : List Numbered) : List Token → List Site
  | [] => []
  | t :: rest =>
    ⟨index, before, t, rest⟩ :: sitesFrom (index + 1) (⟨index, t⟩ :: before) rest

def sites (tokens : List Token) : List Site :=
  sitesFrom 0 [] tokens

/-- The tokens from the nearest one on that is no trivia.  The end of a block counts as a token
of its own. -/
def fromSignificant (before : List Numbered) : List Numbered :=
  before.dropWhile (fun n => n.token.kind != .dedent && n.token.kind.isTrivia)

/-- The tokens of the logical line that ends where `before` starts, nearest first. -/
def lineBefore (before : List Numbered) : List Numbered :=
  before.takeWhile (fun n => n.token.kind != .newline)

/-- The statement that ends where `before` starts: its logical line in order, from the first
token on that is no trivia. -/
def statementBefore (before : List Numbered) : List Numbered :=
  (lineBefore before).reverse.dropWhile (fun n => n.token.kind.isTrivia)

/-- The tokens before the statement that ends where `before` starts, nearest first. -/
def beforeStatement (before : List Numbered) : List Numbered :=
  before.drop (statementBefore before).length

def significant (statement : List Numbered) : List Token :=
  (statement.map Numbered.token).filter (fun t => !t.kind.isTrivia)

/-- Whether a string is followed by the end of its logical line, comments aside. -/
def endsStatement (after : List Token) : Bool :=
  match after.find? (fun t => t.kind != .comment) with
  | none => true
  | some t => t.kind == .newline || t.kind == .endMarker

def endsInColon (tokens : List Token) : Bool :=
  match tokens.getLast? with
  | none => false
  | some t => t.isOp [':']

def definedSubject? (tokens : List Token) : Option Subject :=
  match tokens with
  | [] => none
  | first :: rest =>
    if !endsInColon tokens then none
    else if first.isName "class".toList then some .classDef
    else if first.isName "def".toList then some .functionDef
    else if first.isName "async".toList &&
        (rest.head?.any fun t => t.isName "def".toList) then some .functionDef
    else none

/-- Whether an equals sign stands outside all brackets. -/
def hasEquals (depth : Nat) : List Token → Bool
  | [] => false
  | t :: rest =>
    if t.kind != .op then hasEquals depth rest
    else if t.text = ['('] ∨ t.text = ['['] ∨ t.text = ['\x7b'] then hasEquals (depth + 1) rest
    else if t.text = [')'] ∨ t.text = [']'] ∨ t.text = ['\x7d'] then hasEquals (depth - 1) rest
    else (t.text = ['='] && depth = 0) || hasEquals depth rest

def colonKeywords : List Text :=
  ["else", "try", "finally", "except", "lambda"].map String.toList

/-- Whether a statement declares a name with an annotation and no value. -/
def isDeclaration (tokens : List Token) : Bool :=
  match tokens with
  | name :: colon :: _ =>
    name.kind == .name && !colonKeywords.contains name.text && colon.isOp [':'] &&
      !endsInColon tokens
  | _ => false

/-- Whether a statement assigns or declares a name.  A statement on a line with three double
quotes does not. -/
def isAssignment (statement : List Numbered) : Bool :=
  !statement.any (fun n => Text.includes Docstring.tripleDouble n.token.line) &&
    (hasEquals 0 (significant statement) || isDeclaration (significant statement))

/-- The number of the first decorator of a definition that starts at `start`; `before` holds the
tokens before the definition. -/
def decoratedStart (start : Nat) (before : List Numbered) : Nat :=
  match _h : fromSignificant before with
  | [] => start
  | newline :: rest =>
    if newline.token.kind = .newline then
      match statementBefore rest with
      | [] => start
      | first :: _ =>
        if first.token.isOp ['@'] then decoratedStart first.index (beforeStatement rest) else start
    else start
termination_by before.length
decreasing_by
  have shorter : (fromSignificant before).length ≤ before.length :=
    (List.dropWhile_suffix _).length_le
  have dropped : (beforeStatement rest).length ≤ rest.length := by
    simp [beforeStatement]
  rw [_h, List.length_cons] at shorter
  omega

structure Block where
  subject : Subject
  /-- The first token of what is documented; for a module, the docstring itself. -/
  anchor : Nat
  docstring : Nat
deriving DecidableEq

/-- Whether a token could be a docstring: a triple-quoted string that is a statement of its own,
on a line without an assignment. -/
def Site.isCandidate (s : Site) : Bool :=
  s.token.kind == .string && Docstring.isLiteral s.token.text &&
    !Text.includes [' ', '=', ' '] s.token.firstLine && endsStatement s.after

def Site.block? (s : Site) : Option Block :=
  match fromSignificant s.before with
  | [] => some ⟨.wholeModule, s.index, s.index⟩
  | newline :: rest =>
    if newline.token.kind ≠ .newline then none
    else
      let statement := statementBefore rest
      let start := (statement.head?.map Numbered.index).getD newline.index
      match definedSubject? (significant statement) with
      | some subject => some ⟨subject, decoratedStart start (beforeStatement rest), s.index⟩
      | none =>
        if isAssignment statement then
          let target := statement.find? (fun n => n.token.kind == .name)
          some ⟨.assignment, (target.map Numbered.index).getD start, s.index⟩
        else none

def candidates (tokens : List Token) : List Site :=
  (sites tokens).filter Site.isCandidate

def firstOfAnchor (last : Option Nat) : List Block → List Block
  | [] => []
  | b :: rest =>
    if last = some b.anchor then firstOfAnchor last rest
    else b :: firstOfAnchor (some b.anchor) rest

def blocks (tokens : List Token) : List Block :=
  firstOfAnchor none ((candidates tokens).filterMap Site.block?)

def blockEvents (tokens : List Token) : List Event :=
  (candidates tokens).filterMap fun s =>
    s.block?.map fun b => .foundDocstring b.subject s.token.start.row

end DocstringFormat.Source
