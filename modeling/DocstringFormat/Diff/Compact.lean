import DocstringFormat.Diff.Script

/-!
Compaction of an edit script.

Insertions slide over equal lines, first towards the start and then towards the end, and merge
with the insertions that they meet; deletions only change places with insertions and merge.  At
last each deletion that stands beside an insertion becomes one replacement with it.
-/

set_option autoImplicit false

namespace DocstringFormat.Diff

/-- A script with one step picked out; the steps before it are given nearest first. -/
structure Focus where
  before : List Edit
  this : Edit
  after : List Edit

/-- The number of steps and lines, which bounds how often steps can move. -/
def weight (es : List Edit) : Nat :=
  es.foldr (fun e n => e.oldLength + e.newLength + 1 + n) 0

def growNext (equal : Edit) (n : Nat) : List Edit → List Edit
  | e :: rest => if e.tag = .equal then e.growLeft n :: rest else equal :: e :: rest
  | [] => [equal]

/-- Puts `n` equal lines behind some steps that are given nearest first. -/
def growPrevious (equal : Edit) (n : Nat) : List Edit → List Edit
  | e :: rest => if e.tag = .equal then e.growRight n :: rest else equal :: e :: rest
  | [] => [equal]

def consUnlessEmpty (e : Edit) (es : List Edit) : List Edit :=
  if e.isEmpty then es else e :: es

/-- Moves a step towards the start as often as `moves` allows. -/
def Focus.slideUp (s : Sides) : Nat → Focus → Focus
  | 0, f => f
  | moves + 1, f =>
    match f.before with
    | [] => f
    | previous :: rest =>
      if previous.tag = .equal then
        let n := s.commonEnd previous.oldStop f.this.newStop
          (min previous.oldLength f.this.newLength)
        if 0 < n then
          let equal := Edit.equal (previous.oldStop - n) (f.this.newStop - n) n
          Focus.slideUp s moves
            ⟨consUnlessEmpty (previous.shrinkLeft n) rest, f.this.shiftLeft n,
              growNext equal n f.after⟩
        else if previous.isEmpty then Focus.slideUp s moves { f with before := rest }
        else f
      else if previous.tag = f.this.tag then
        let merged := previous.growRight (f.this.oldLength + f.this.newLength)
        Focus.slideUp s moves ⟨rest, merged, f.after⟩
      else Focus.slideUp s moves ⟨rest, f.this, previous :: f.after⟩

/-- Moves a step towards the end as often as `moves` allows. -/
def Focus.slideDown (s : Sides) : Nat → Focus → Focus
  | 0, f => f
  | moves + 1, f =>
    match f.after with
    | [] => f
    | next :: rest =>
      if next.tag = .equal then
        let n := s.commonStart next.oldStart f.this.newStart
          (min next.oldLength f.this.newLength)
        if 0 < n then
          let equal := Edit.equal next.oldStart f.this.newStart n
          Focus.slideDown s moves
            ⟨growPrevious equal n f.before, f.this.shiftRight n,
              consUnlessEmpty (next.shrinkRight n) rest⟩
        else if next.isEmpty then Focus.slideDown s moves { f with after := rest }
        else f
      else if next.tag = f.this.tag then
        let merged := f.this.growRight (next.oldLength + next.newLength)
        Focus.slideDown s moves ⟨f.before, merged, rest⟩
      else Focus.slideDown s moves ⟨next :: f.before, f.this, rest⟩

/-- Slides every step with a tag, the steps before being given nearest first. -/
def slideAllFrom (s : Sides) (tag : Tag) : Nat → List Edit → List Edit → List Edit
  | 0, before, after => before.reverse ++ after
  | _ + 1, before, [] => before.reverse
  | steps + 1, before, e :: after =>
    if e.tag = tag then
      let up := Focus.slideUp s (weight before + 1) ⟨before, e, after⟩
      let down := Focus.slideDown s (weight up.after + 1) up
      slideAllFrom s tag steps (down.this :: down.before) down.after
    else slideAllFrom s tag steps (e :: before) after

def slideAll (s : Sides) (tag : Tag) (es : List Edit) : List Edit :=
  slideAllFrom s tag (2 * weight es * weight es + 1) [] es

/-- Steps that wait for the next change from equal to changed lines. -/
structure Pending where
  deleted : Option Edit
  inserted : Option Edit
  kept : Option Edit

def Pending.change (p : Pending) : List Edit :=
  match p.deleted, p.inserted with
  | some d, some i => [.replace d.oldStart d.oldLength i.newStart i.newLength]
  | some d, none => [d]
  | none, some i => [i]
  | none, none => []

def extend (waiting : Option Edit) (e : Edit) : Option Edit :=
  match waiting with
  | none => some e
  | some w =>
    some { w with oldLength := w.oldLength + e.oldLength, newLength := w.newLength + e.newLength }

/-- Merges neighbouring steps of a kind, and a deletion with an insertion. -/
def mergeFrom (p : Pending) : List Edit → List Edit
  | [] => p.kept.toList ++ p.change
  | e :: rest =>
    match e.tag with
    | .equal => p.change ++ mergeFrom ⟨none, none, extend p.kept e⟩ rest
    | .delete => p.kept.toList ++ mergeFrom ⟨extend p.deleted e, p.inserted, none⟩ rest
    | .insert => p.kept.toList ++ mergeFrom ⟨p.deleted, extend p.inserted e, none⟩ rest
    | .replace => p.kept.toList ++ e :: mergeFrom ⟨p.deleted, p.inserted, none⟩ rest

def compact (s : Sides) (es : List Edit) : List Edit :=
  mergeFrom ⟨none, none, none⟩ (slideAll s .insert (slideAll s .delete es))

end DocstringFormat.Diff
