import DocstringFormat.Text.Tab
import DocstringFormat.Text.Width

/-!
Filling: text laid out in lines of bounded width, first fit.

A word goes on the current line when it fits and starts a new line otherwise.  Words are never
cut, so a word wider than the line stands alone.  Runs of spaces inside a line are kept and
count towards its width; the spaces where a line ends are dropped.
-/

set_option autoImplicit false

namespace DocstringFormat.Text

structure SpacedWord where
  body : Text
  gap : Nat

def spacedWords : Text → List SpacedWord
  | [] => []
  | c :: rest =>
    if c = ' ' then
      match rest, spacedWords rest with
      | d :: _, w :: ws => if d = ' ' then ⟨[], w.gap + 1⟩ :: ws else ⟨[], 1⟩ :: w :: ws
      | _, ws => ⟨[], 1⟩ :: ws
    else
      match rest, spacedWords rest with
      | _ :: _, w :: ws => ⟨c :: w.body, w.gap⟩ :: ws
      | _, ws => ⟨[c], 0⟩ :: ws

/-- Packs words into lines, the current line given in reverse with its width.  `room` is the
width of the current line and `later` that of the lines after it. -/
def packFrom (room later : Nat) (line : List SpacedWord) (used : Nat) :
    List SpacedWord → List (List SpacedWord)
  | [] => [line.reverse]
  | w :: ws =>
    if line.isEmpty = false ∧ room < used + width w.body then
      line.reverse :: packFrom later later [w] (width w.body + w.gap) ws
    else
      packFrom room later (w :: line) (used + width w.body + w.gap) ws

/-- Packs words into lines of width `room` for the first and `later` for the others. -/
def pack (room later : Nat) (ws : List SpacedWord) : List (List SpacedWord) :=
  packFrom room later [] 0 ws

def lineText : List SpacedWord → Text
  | [] => []
  | [w] => w.body
  | w :: next :: ws => w.body ++ List.replicate w.gap ' ' ++ lineText (next :: ws)

/-- A text with tabs expanded, every blank a space, and no outer blanks. -/
def flatten (s : Text) : Text :=
  trim ((expandTabs s).map (fun c => if Character.isBlank c then ' ' else c))

/-- Fills a text to `columns`: the first line is indented with `initial`, the others with
`subsequent`.  A blank text has no lines. -/
def fill (s : Text) (columns : Nat) (initial subsequent : Text) : List Text :=
  let flat := flatten s
  if flat.isEmpty then []
  else
    let columns := max columns 1
    match pack (columns - width initial) (columns - width subsequent) (spacedWords flat) with
    | [] => []
    | first :: rest =>
      (initial ++ lineText first) :: rest.map (fun line => subsequent ++ lineText line)

end DocstringFormat.Text
