import DocstringFormat.Diff.Compact
import DocstringFormat.Error
import DocstringFormat.Text.LineEnding

/-!
Unified diffs: the changes between two texts in hunks with some lines of context.
-/

set_option autoImplicit false

namespace DocstringFormat.Diff

def contextLines : Nat := 3

def trimFirst : List Edit → List Edit
  | [] => []
  | e :: rest =>
    if e.tag = .equal then e.shrinkRight (e.oldLength - contextLines) :: rest else e :: rest

/-- Cuts the equal lines at the end of a script down to the context. -/
def trimLast (es : List Edit) : List Edit :=
  match es.getLast? with
  | some e =>
    if e.tag = .equal then es.dropLast ++ [e.shrinkLeft (e.oldLength - contextLines)] else es
  | none => es

/-- Divides a script into groups wherever more equal lines than two contexts stand between two
changes; the group so far is given in reverse. -/
def groupFrom (group : List Edit) : List Edit → List (List Edit)
  | [] => [group.reverse]
  | e :: rest =>
    if e.tag = .equal ∧ 2 * contextLines < e.oldLength then
      let surplus := e.oldLength - contextLines
      (e.shrinkLeft surplus :: group).reverse :: groupFrom [e.shrinkRight surplus] rest
    else groupFrom (e :: group) rest

def isIdle : List Edit → Bool
  | [] => true
  | [e] => e.tag == .equal
  | _ => false

/-- The hunks of a script.  Only the last group can be without a change, and then it is left
out. -/
def hunks (es : List Edit) : List (List Edit) :=
  let groups := groupFrom [] (trimLast (trimFirst es))
  match groups.getLast? with
  | some group => if isIdle group then groups.dropLast else groups
  | none => []

/-- A range of lines in the header of a hunk.  One line has no count, and an empty range stands
after the line before it. -/
def rangeText (start stop : Nat) : Text :=
  let length := stop - start
  if length = 1 then Error.digits (start + 1)
  else if length = 0 then Error.digits start ++ [','] ++ Error.digits length
  else Error.digits (start + 1) ++ [','] ++ Error.digits length

def hunkHeader (hunk : List Edit) : Text :=
  match hunk.head?, hunk.getLast? with
  | some first, some last =>
    "@@ -".toList ++ rangeText first.oldStart last.oldStop ++ " +".toList ++
      rangeText first.newStart last.newStop ++ " @@\n".toList
  | _, _ => []

def hunkLine (mark : Char) (line : Text) : Text :=
  match Text.LineEnding.ofLine? line with
  | some _ => mark :: line
  | none => mark :: line ++ "\n\\ No newline at end of file\n".toList

def markedLines (mark : Char) (lines : Array Text) (start length : Nat) : Text :=
  (lines.toList.drop start |>.take length).flatMap (hunkLine mark)

def editText (s : Sides) (e : Edit) : Text :=
  match e.tag with
  | .equal => markedLines ' ' s.old e.oldStart e.oldLength
  | .delete => markedLines '-' s.old e.oldStart e.oldLength
  | .insert => markedLines '+' s.new e.newStart e.newLength
  | .replace =>
    markedLines '-' s.old e.oldStart e.oldLength ++ markedLines '+' s.new e.newStart e.newLength

def hunkText (s : Sides) (hunk : List Edit) : Text :=
  hunkHeader hunk ++ hunk.flatMap (editText s)

/-- The unified diff between two versions of a file.  Equal versions have none. -/
def unified (old new name : Text) : Text :=
  let s : Sides := ⟨old.terminatedLines.toArray, new.terminatedLines.toArray⟩
  match hunks (compact s (script s)) with
  | [] => []
  | hs =>
    "--- before/".toList ++ name ++ "\n+++ after/".toList ++ name ++ "\n".toList ++
      hs.flatMap (hunkText s)

end DocstringFormat.Diff
