import DocstringFormat.Text.Basic

/-!
Line endings.

A source may end its lines with a carriage return and a line feed, with a carriage return alone
or with a line feed alone.  `terminatedLines` cuts after each of them, `dominant` chooses the
ending that a file mostly uses, and `terminateAll` gives every terminated line one ending.
-/

set_option autoImplicit false

namespace DocstringFormat.Text

def extendFirst (c : Char) : List Text → List Text
  | [] => [[c]]
  | line :: rest => (c :: line) :: rest

def terminatedLines : Text → List Text
  | [] => []
  | '\r' :: '\n' :: rest => ['\r', '\n'] :: terminatedLines rest
  | c :: rest =>
    if c == '\n' || c == '\r' then [c] :: terminatedLines rest
    else extendFirst c (terminatedLines rest)

inductive LineEnding where
  | lf
  | cr
  | crlf
deriving DecidableEq

namespace LineEnding

def text : LineEnding → Text
  | lf => ['\n']
  | cr => ['\r']
  | crlf => ['\r', '\n']

def ofLine? (line : Text) : Option LineEnding :=
  match line.reverse with
  | '\n' :: '\r' :: _ => some crlf
  | '\r' :: _ => some cr
  | '\n' :: _ => some lf
  | _ => none

/-- The ending that most lines use.  Equal counts prefer the line feed, then the pair. -/
def dominant (ls : List Text) : LineEnding :=
  let ends := ls.filterMap ofLine?
  let crlfs := ends.count crlf
  let crs := ends.count cr
  let lfs := ends.count lf
  if lfs < crlfs ∧ crs ≤ crlfs then crlf
  else if lfs < crs ∧ crlfs < crs then cr
  else lf

end LineEnding

def dropLineEnding (line : Text) : Text :=
  dropEndWhile (fun c => c == '\r' || c == '\n') line

def terminate (newline line : Text) : Text :=
  let body := dropLineEnding line
  if body.length = line.length then line else body ++ newline

def terminateAll (newline : Text) (ls : List Text) : Text :=
  ls.flatMap (terminate newline)

end DocstringFormat.Text
