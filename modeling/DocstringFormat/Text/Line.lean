import DocstringFormat.Text.Basic

/-!
Lines of a text.

A line ends after a line feed, and a carriage return before that line feed belongs to the
terminator.  `dedent` takes the margin that the lines share off all of them.
-/

set_option autoImplicit false

namespace DocstringFormat.Text

def rawLines (s : Text) : List Text :=
  splitAfter (· == '\n') s

def dropTerminator (line : Text) : Text :=
  match before? ['\n'] line with
  | none => line
  | some body =>
    match before? ['\r'] body with
    | none => body
    | some shorter => shorter

def lines (s : Text) : List Text :=
  (rawLines s).map dropTerminator

def unlines (ls : List Text) : Text :=
  join ['\n'] ls

def endsWithNewline (s : Text) : Bool :=
  ['\n'].isSuffixOf s

/-- Cuts a margin back to what a line shares with it.  A line that runs out first does not
narrow the margin. -/
def narrow : Text → Text → Text
  | m :: margin, c :: line => if m = c then m :: narrow margin line else []
  | margin, _ => margin

def margin : List Text → Text
  | [] => []
  | line :: rest =>
    if isBlank line then margin rest else rest.foldl narrow (leadingBlanks line)

/-- A line without the margin; a blank line, or one that lacks the margin, becomes empty. -/
def dropMargin (m line : Text) : Text :=
  if isBlank line then [] else (after? m line).getD []

/-- Takes the common margin off every line. -/
def dedent (s : Text) : Text :=
  let ls := lines s
  let m := margin ls
  let body := unlines (ls.map (dropMargin m))
  if endsWithNewline s then body ++ ['\n'] else body

/-- The shortest indentation among the lines that are not blank; the first of equal length. -/
def shortestIndentation (ls : List Text) : Text :=
  let leads := (ls.filter (fun line => !isBlank line)).map leadingBlanks
  match leads with
  | [] => []
  | first :: rest =>
    rest.foldl (fun best lead => if size lead < size best then lead else best) first

def dropLeadingBlankLines (s : Text) : Text :=
  match (lines s).dropWhile isBlank with
  | [] => unlines (lines s)
  | ls => unlines ls

end DocstringFormat.Text
