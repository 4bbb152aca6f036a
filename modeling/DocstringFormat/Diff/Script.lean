import DocstringFormat.Diff.Edit

/-!
A shortest edit script, found by searching from both ends and divided where the searches meet.

The furthest points that `d` edits reach are kept by diagonal.  Forward the diagonal of a point
is its old offset less its new offset, and backward the same is counted from the far corner.
-/

set_option autoImplicit false

namespace DocstringFormat.Diff

structure Box where
  oldStart : Nat
  oldStop : Nat
  newStart : Nat
  newStop : Nat

namespace Box

def oldLength (b : Box) : Nat :=
  b.oldStop - b.oldStart

def newLength (b : Box) : Nat :=
  b.newStop - b.newStart

end Box

structure Frontier where
  shift : Nat
  reached : Array Nat

namespace Frontier

def start (shift : Nat) : Frontier :=
  ⟨shift, Array.replicate (2 * shift + 1) 0⟩

def get (f : Frontier) (k : Int) : Nat :=
  f.reached.getD (k + f.shift).toNat 0

def set (f : Frontier) (k : Int) (x : Nat) : Frontier :=
  { f with reached := f.reached.setIfInBounds (k + f.shift).toNat x }

/-- The offset from which `d` edits continue on diagonal `k`: one step from the neighbour that
has come further. -/
def advanceFrom (f : Frontier) (d : Nat) (k : Int) : Nat :=
  if k = -(d : Int) ∨ (k ≠ d ∧ f.get (k - 1) < f.get (k + 1)) then f.get (k + 1)
  else f.get (k - 1) + 1

end Frontier

structure Search where
  forward : Frontier
  backward : Frontier
  met : Option (Nat × Nat)

def diagonals (d : Nat) : List Int :=
  (List.range (d + 1)).map (fun i : Nat => (d : Int) - 2 * i)

/-- The number of old lines less the number of new lines. -/
def Box.delta (b : Box) : Int :=
  (b.oldLength : Int) - b.newLength

def Search.stepForward (s : Sides) (b : Box) (d : Nat) (st : Search) (k : Int) : Search :=
  if st.met.isSome then st
  else
    let x := st.forward.advanceFrom d k
    let y : Int := (x : Int) - k
    let n := b.oldLength
    let advance :=
      if x < n ∧ 0 ≤ y ∧ y < b.newLength then
        s.commonStart (b.oldStart + x) (b.newStart + y.toNat) (min (n - x) (b.newLength - y.toNat))
      else 0
    let forward := st.forward.set k (x + advance)
    let meets :=
      b.delta % 2 ≠ 0 ∧ (k - b.delta).natAbs + 1 ≤ d ∧
        n ≤ x + advance + st.backward.get (-(k - b.delta))
    { st with
      forward := forward
      met := if meets then some (b.oldStart + x, b.newStart + y.toNat) else none }

def Search.stepBackward (s : Sides) (b : Box) (d : Nat) (st : Search) (k : Int) : Search :=
  if st.met.isSome then st
  else
    let x := st.backward.advanceFrom d k
    let y : Int := (x : Int) - k
    let n := b.oldLength
    let m := b.newLength
    let advance :=
      if x < n ∧ 0 ≤ y ∧ y < m then
        s.commonEnd (b.oldStart + n - x) (b.newStart + m - y.toNat) (min (n - x) (m - y.toNat))
      else 0
    let backward := st.backward.set k (x + advance)
    let meets :=
      b.delta % 2 = 0 ∧ (k - b.delta).natAbs ≤ d ∧
        n ≤ x + advance + st.forward.get (-(k - b.delta))
    { st with
      backward := backward
      met :=
        if meets then
          some (n - (x + advance) + b.oldStart, m - (y.toNat + advance) + b.newStart)
        else none }

def Search.run (s : Sides) (b : Box) (st : Search) (d : Nat) : Nat → Option (Nat × Nat)
  | 0 => none
  | rounds + 1 =>
    let afterForward := (diagonals d).foldl (Search.stepForward s b d) st
    let afterBoth := (diagonals d).foldl (Search.stepBackward s b d) afterForward
    match afterBoth.met with
    | some point => some point
    | none => Search.run s b afterBoth (d + 1) rounds

def middle? (s : Sides) (b : Box) : Option (Nat × Nat) :=
  let rounds := (b.oldLength + b.newLength + 1) / 2 + 1
  Search.run s b ⟨.start (rounds + 1), .start (rounds + 1), none⟩ 0 rounds

def unlessEmpty (e : Edit) : List Edit :=
  if e.isEmpty then [] else [e]

def scriptIn (s : Sides) : Nat → Box → List Edit
  | 0, b =>
    unlessEmpty (.delete b.oldStart b.oldLength b.newStart) ++
      unlessEmpty (.insert b.oldStart b.newStart b.newLength)
  | depth + 1, b =>
    let lead := s.commonStart b.oldStart b.newStart (min b.oldLength b.newLength)
    let inner : Box := { b with oldStart := b.oldStart + lead, newStart := b.newStart + lead }
    let tail := s.commonEnd inner.oldStop inner.newStop (min inner.oldLength inner.newLength)
    let core : Box :=
      { inner with oldStop := inner.oldStop - tail, newStop := inner.newStop - tail }
    let body :=
      if core.newLength = 0 then unlessEmpty (.delete core.oldStart core.oldLength core.newStart)
      else if core.oldLength = 0 then [.insert core.oldStart core.newStart core.newLength]
      else
        match middle? s core with
        | some (x, y) =>
          scriptIn s depth { core with oldStop := x, newStop := y } ++
            scriptIn s depth { core with oldStart := x, newStart := y }
        | none =>
          [.delete core.oldStart core.oldLength core.newStart,
            .insert core.oldStart core.newStart core.newLength]
    unlessEmpty (.equal b.oldStart b.newStart lead) ++ body ++
      unlessEmpty (.equal core.oldStop core.newStop tail)

def script (s : Sides) : List Edit :=
  scriptIn s (s.old.size + s.new.size + 1) ⟨0, s.old.size, 0, s.new.size⟩

end DocstringFormat.Diff
