import DocstringFormat.Command.Arguments

/-!
The grammar of command lines.

Arguments are taken in order.  An option waits for its values, which are checked once the next
option, the next file or the end comes.
-/

set_option autoImplicit false

namespace DocstringFormat.Command

open Markup (Style)

/-- Why a command line starts no run. -/
inductive Stop where
  | usage
  | help
  | version
deriving DecidableEq

inductive Effect where
  | switch (turnOn : Arguments → Arguments)
  /-- Takes as many values as `count` says; only one that repeats may be given twice. -/
  | values (count : Nat) (repeats : Bool) (take : Arguments → List Text → Option Arguments)
  /-- Ends the command line at once. -/
  | stop (cause : Stop)

/-- An option of the command line: its name, the letter that is short for it, the names of its values
and what it is for. -/
structure OptionSpec where
  name : Text
  short : Option Char := none
  values : List Text := []
  purpose : Text
  effect : Effect

/-- A number as written: digits, which a plus sign may precede, for a number of 64 bits. -/
def natural? (s : Text) : Option Nat :=
  let digits := match s with
    | '+' :: rest => rest
    | _ => s
  if digits.isEmpty || !digits.all Char.isDigit then none
  else
    let n := digits.foldl (fun n c => 10 * n + (c.toNat - '0'.toNat)) 0
    if n < wordLimit then some n else none

def path? (s : Text) : Option Text :=
  if s.isEmpty then none else some s

def switch (name : String) (short : Option Char) (purpose : String)
    (turnOn : Arguments → Arguments) : OptionSpec :=
  ⟨name.toList, short, [], purpose.toList, .switch turnOn⟩

def single {α : Type} (name value purpose : String) (read? : Text → Option α)
    (put : Arguments → α → Arguments) : OptionSpec :=
  ⟨name.toList, none, [value.toList], purpose.toList,
    .values 1 false fun a vs => (vs.head?.bind read?).map (put a)⟩

def repeated (name value purpose : String) (put : Arguments → Text → Arguments) : OptionSpec :=
  ⟨name.toList, none, [value.toList], purpose.toList,
    .values 1 true fun a vs => vs.head?.map (put a)⟩

def twoNumbers (name first second purpose : String) (put : Arguments → List Nat → Arguments) :
    OptionSpec :=
  ⟨name.toList, none, [first.toList, second.toList], purpose.toList,
    .values 2 true fun a vs => (vs.mapM natural?).map (put a)⟩

def optionSpecs : List OptionSpec :=
  [switch "in-place" (some 'i') "Rewrite files in place" fun a => { a with inPlace := true },
   switch "check" (some 'c')
     "Only report files that would change; exits with status 3 if any would"
     fun a => { a with check := true },
   switch "diff" (some 'd') "Print a unified diff instead of the formatted source"
     fun a => { a with diff := true },
   switch "recursive" (some 'r') "Descend into directories" fun a => { a with recursive := true },
   repeated "exclude" "FRAGMENT" "Skip paths containing this fragment (repeatable)"
     fun a s => { a with exclude := a.exclude ++ [s] },
   single "wrap-summaries" "LENGTH" "Wrap summaries at this column; 0 disables wrapping" natural?
     fun a n => { a with wrapSummaries := some n },
   single "wrap-descriptions" "LENGTH" "Wrap descriptions at this column; 0 disables wrapping"
     natural? fun a n => { a with wrapDescriptions := some n },
   single "tab-width" "WIDTH" "Width of a tab in indentation" natural?
     fun a n => { a with tabWidth := some n },
   switch "pre-summary-newline" none "Put the summary on the line after the opening quotes"
     fun a => { a with preSummaryNewline := true },
   switch "pre-summary-space" none "Put a space between the opening quotes and the summary"
     fun a => { a with preSummarySpace := true },
   switch "post-description-blank" none "Add a blank line after the description"
     fun a => { a with postDescriptionBlank := true },
   switch "make-summary-multi-line" none "Put one-line docstrings on three lines"
     fun a => { a with makeSummaryMultiLine := true },
   switch "close-quotes-on-newline" none "Put closing quotes on their own line when a summary wraps"
     fun a => { a with closeQuotesOnNewline := true },
   switch "force-wrap" none "Wrap descriptions even when they look like lists or code"
     fun a => { a with forceWrap := true },
   switch "non-strict" none "Do not treat short-lined text as a list"
     fun a => { a with nonStrict := true },
   single "style" "STYLE" "Field-list style: sphinx, epytext, numpy or google" Style.ofName?
     fun a s => { a with style := some s },
   repeated "non-cap" "WORD" "Never capitalize this word at the start of a summary (repeatable)"
     fun a s => { a with nonCap := a.nonCap ++ [s] },
   switch "black" none "Use black-compatible widths and spacing"
     fun a => { a with black := true },
   twoNumbers "range" "START" "END" "Only format docstrings touching rows START..=END"
     fun a ns => { a with range := a.range ++ ns },
   twoNumbers "docstring-length" "MIN" "MAX" "Only format docstrings spanning MIN..=MAX rows"
     fun a ns => { a with docstringLength := a.docstringLength ++ ns },
   single "config" "PATH" "Read settings from this pyproject.toml instead of searching for one" path?
     fun a s => { a with config := some s },
   switch "verbose" (some 'v') "Log progress to stderr" fun a => { a with verbose := true },
   ⟨"help".toList, some 'h', [], "Print help".toList, .stop .help⟩,
   ⟨"version".toList, some 'V', [], "Print version".toList, .stop .version⟩]

/-- How far a command line is taken. -/
structure Progress where
  arguments : Arguments := {}
  given : List Text := []
  /-- The option that still takes values, or whose values are not yet checked. -/
  waiting : Option (OptionSpec × List Text) := none

namespace Progress

/-- Checks and takes over the values of the waiting option. -/
def settle (p : Progress) : Except Stop Progress :=
  match p.waiting with
  | none => .ok p
  | some (spec, vs) =>
    match spec.effect with
    | .values count repeats take =>
      if vs.length ≠ count ∨ (!repeats ∧ spec.name ∈ p.given) then .error .usage
      else
        match take p.arguments vs with
        | none => .error .usage
        | some a => .ok ⟨a, spec.name :: p.given, none⟩
    | _ => .error .usage

def addFile (p : Progress) (s : Text) : Except Stop Progress := do
  let p ← p.settle
  match path? s with
  | none => .error .usage
  | some s => .ok { p with arguments := { p.arguments with files := p.arguments.files ++ [s] } }

def addOption (p : Progress) (spec : OptionSpec) (attached : Option Text) :
    Except Stop Progress := do
  let p ← p.settle
  match spec.effect, attached with
  | .values _ _ _, none => .ok { p with waiting := some (spec, []) }
  | .values _ _ _, some v => settle { p with waiting := some (spec, [v]) }
  | _, some _ => .error .usage
  | .stop cause, none => .error cause
  | .switch turnOn, none =>
    if spec.name ∈ p.given then .error .usage
    else .ok { p with arguments := turnOn p.arguments, given := spec.name :: p.given }

/-- Takes a long option: a name, and after an equals sign a value. -/
def addLong (p : Progress) (s : Text) : Except Stop Progress :=
  let name := s.takeWhile (· != '=')
  let attached := match s.dropWhile (· != '=') with
    | [] => none
    | _ :: v => some v
  match optionSpecs.find? (·.name == name) with
  | none => .error .usage
  | some spec => p.addOption spec attached

def addShort (p : Progress) : List Char → Except Stop Progress
  | [] => .ok p
  | c :: rest => do
    match optionSpecs.find? (·.short == some c) with
    | none => .error .usage
    | some spec => addShort (← p.addOption spec none) rest

/-- Takes a plain word: a value if an option waits for one, else a file. -/
def addWord (p : Progress) (s : Text) : Except Stop Progress :=
  match p.waiting with
  | some (spec, vs) =>
    match spec.effect with
    | .values count _ _ =>
      if vs.length < count then .ok { p with waiting := some (spec, vs ++ [s]) } else p.addFile s
    | _ => p.addFile s
  | none => p.addFile s

def addArgument (p : Progress) : Text → Except Stop Progress
  | '-' :: '-' :: name => p.addLong name
  | '-' :: c :: rest => p.addShort (c :: rest)
  | s => p.addWord s

/-- Takes arguments; after two dashes only files follow. -/
def addAll (p : Progress) : List Text → Except Stop Progress
  | [] => p.settle
  | s :: rest =>
    if s = ['-', '-'] then do rest.foldlM addFile (← p.settle)
    else do addAll (← p.addArgument s) rest

end Progress

/-- What a command line asks for.  It names at least one file. -/
def parse (args : List Text) : Except Stop Arguments := do
  let p ← Progress.addAll {} args
  if p.arguments.files.isEmpty then .error .usage else .ok p.arguments

end DocstringFormat.Command
