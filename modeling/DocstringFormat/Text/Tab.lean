import DocstringFormat.Fault
import DocstringFormat.Text.Line

/-!
Tabs and indentation.

A tab advances to the next multiple of the tab size, counted in characters from the start of
the line.
-/

set_option autoImplicit false

namespace DocstringFormat.Text

def tabStop : Nat := 8

def expandTabsFrom (tabSize : Nat) : Nat → Text → Text
  | _, [] => []
  | column, c :: rest =>
    if c = '\t' then
      let spaces := tabSize - column % tabSize
      List.replicate spaces ' ' ++ expandTabsFrom tabSize (column + spaces) rest
    else if c = '\n' ∨ c = '\r' then
      c :: expandTabsFrom tabSize 0 rest
    else
      c :: expandTabsFrom tabSize (column + 1) rest

/-- Replaces tabs by spaces up to the next multiple of eight. -/
def expandTabs (s : Text) : Text :=
  expandTabsFrom tabStop 0 s

def expandedSize (tabSize : Nat) : Nat → Text → Nat
  | _, [] => 0
  | column, c :: rest =>
    if c = '\t' then
      let spaces := tabSize - column % tabSize
      spaces + expandedSize tabSize (column + spaces) rest
    else if c = '\n' ∨ c = '\r' then
      c.utf8Size + expandedSize tabSize 0 rest
    else
      c.utf8Size + expandedSize tabSize (column + 1) rest

def maxSize : Nat := 9223372036854775807

/-- Replaces tabs by spaces for any tab size.  A tab cannot be expanded when the tab size is
zero or the result has no size. -/
def expandTabsBy (tabSize : Nat) (s : Text) : Except Fault Text :=
  if '\t' ∉ s then .ok s
  else if tabSize = 0 then .error .zeroTabSize
  else if maxSize < expandedSize tabSize 0 s then .error .overflow
  else .ok (expandTabsFrom tabSize 0 s)

/-- Takes the common margin off a text and indents every line with `indentation`.  Tabs are
expanded first unless the indentation itself has a tab.  No line keeps trailing blanks, and the
result ends with one line feed. -/
def reindent (indentation s : Text) : Text :=
  let spaced := if '\t' ∈ indentation then s else expandTabs s
  let ls := (lines (dedent spaced)).map (fun line => trimEnd (indentation ++ line))
  trimEnd (unlines ls) ++ ['\n']

end DocstringFormat.Text
