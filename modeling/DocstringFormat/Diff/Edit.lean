import DocstringFormat.Text.Basic

/-!
Edit scripts between two sequences of lines.

A step of a script keeps, deletes, inserts or replaces a range of lines; it knows where it stands
in both sequences.
-/

set_option autoImplicit false

namespace DocstringFormat.Diff

inductive Tag where
  | equal
  | delete
  | insert
  | replace
deriving DecidableEq

structure Edit where
  tag : Tag
  oldStart : Nat
  oldLength : Nat
  newStart : Nat
  newLength : Nat
deriving DecidableEq

namespace Edit

def equal (oldStart newStart length : Nat) : Edit :=
  ⟨.equal, oldStart, length, newStart, length⟩

def delete (oldStart oldLength newStart : Nat) : Edit :=
  ⟨.delete, oldStart, oldLength, newStart, 0⟩

def insert (oldStart newStart newLength : Nat) : Edit :=
  ⟨.insert, oldStart, 0, newStart, newLength⟩

def replace (oldStart oldLength newStart newLength : Nat) : Edit :=
  ⟨.replace, oldStart, oldLength, newStart, newLength⟩

def oldStop (e : Edit) : Nat :=
  e.oldStart + e.oldLength

def newStop (e : Edit) : Nat :=
  e.newStart + e.newLength

def isEmpty (e : Edit) : Bool :=
  e.oldLength == 0 && e.newLength == 0

def shiftLeft (n : Nat) (e : Edit) : Edit :=
  { e with oldStart := e.oldStart - n, newStart := e.newStart - n }

def shiftRight (n : Nat) (e : Edit) : Edit :=
  { e with oldStart := e.oldStart + n, newStart := e.newStart + n }

/-- Changes the lengths of a step; only the sides that the step touches have a length. -/
def mapLength (f : Nat → Nat) (e : Edit) : Edit :=
  match e.tag with
  | .equal | .replace => { e with oldLength := f e.oldLength, newLength := f e.newLength }
  | .delete => { e with oldLength := f e.oldLength }
  | .insert => { e with newLength := f e.newLength }

def growRight (n : Nat) (e : Edit) : Edit :=
  e.mapLength (· + n)

def growLeft (n : Nat) (e : Edit) : Edit :=
  (e.shiftLeft n).growRight n

def shrinkLeft (n : Nat) (e : Edit) : Edit :=
  e.mapLength (· - n)

def shrinkRight (n : Nat) (e : Edit) : Edit :=
  (e.shiftRight n).shrinkLeft n

end Edit

structure Sides where
  old : Array Text
  new : Array Text

namespace Sides

def same (s : Sides) (i j : Nat) : Bool :=
  match s.old[i]?, s.new[j]? with
  | some a, some b => a == b
  | _, _ => false

def commonStart (s : Sides) (i j : Nat) : Nat → Nat
  | 0 => 0
  | bound + 1 => if s.same i j then s.commonStart (i + 1) (j + 1) bound + 1 else 0

/-- The number of common lines at the end, at most `bound`, of the old lines before `i` and the
new lines before `j`. -/
def commonEnd (s : Sides) (i j : Nat) : Nat → Nat
  | 0 => 0
  | bound + 1 =>
    if 0 < i ∧ 0 < j ∧ s.same (i - 1) (j - 1) then s.commonEnd (i - 1) (j - 1) bound + 1 else 0

end Sides

end DocstringFormat.Diff
