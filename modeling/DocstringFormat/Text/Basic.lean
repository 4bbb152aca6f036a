import DocstringFormat.Character.Blank

/-!
Texts as lists of characters.

Sizes and offsets are counted in bytes of the UTF-8 form, so that a column or a span means the
same as in the stored file.  `takeBytes` and `dropBytes` cut a text at an offset; on an offset
inside a character both round up, so that the two parts always concatenate to the text.
-/

set_option autoImplicit false

namespace DocstringFormat

abbrev Text := List Char

namespace Text

def size : Text → Nat
  | [] => 0
  | c :: rest => c.utf8Size + size rest

def takeBytes : Nat → Text → Text
  | 0, _ => []
  | _ + 1, [] => []
  | n + 1, c :: rest => c :: takeBytes (n + 1 - c.utf8Size) rest

def dropBytes : Nat → Text → Text
  | 0, s => s
  | _ + 1, [] => []
  | n + 1, c :: rest => dropBytes (n + 1 - c.utf8Size) rest

/-- Whether byte offset `n` lies between two characters or at an end. -/
def isBoundary : Nat → Text → Bool
  | 0, _ => true
  | _ + 1, [] => false
  | n + 1, c :: rest => c.utf8Size ≤ n + 1 && isBoundary (n + 1 - c.utf8Size) rest

def extract (s : Text) (lo hi : Nat) : Text :=
  takeBytes (hi - lo) (dropBytes lo s)

def extract? (s : Text) (lo hi : Nat) : Option Text :=
  if lo ≤ hi ∧ isBoundary lo s ∧ isBoundary hi s then some (extract s lo hi) else none

def dropEndWhile (p : Char → Bool) (s : Text) : Text :=
  (s.reverse.dropWhile p).reverse

def trimStart (s : Text) : Text :=
  s.dropWhile Character.isBlank

def trimEnd (s : Text) : Text :=
  dropEndWhile Character.isBlank s

def trim (s : Text) : Text :=
  trimEnd (trimStart s)

def isBlank (s : Text) : Bool :=
  s.all Character.isBlank

def leadingBlanks (s : Text) : Text :=
  s.takeWhile Character.isBlank

def anyEnd (p : Text → Bool) : Text → Bool
  | [] => p []
  | c :: rest => p (c :: rest) || anyEnd p rest

def includes (part s : Text) : Bool :=
  anyEnd (fun rest => part.isPrefixOf rest) s

def after? : Text → Text → Option Text
  | [], s => some s
  | _ :: _, [] => none
  | l :: lead, c :: rest => if l = c then after? lead rest else none

def before? (tail s : Text) : Option Text :=
  (after? tail.reverse s.reverse).map List.reverse

def runEndsOnto (p : Char → Bool) : Text → List Text → List Text
  | [], acc => [] :: acc
  | c :: rest, acc => if p c then runEndsOnto p rest ((c :: rest) :: acc) else (c :: rest) :: acc

def afterRun (p : Char → Bool) (s : Text) : List Text :=
  runEndsOnto p s []

/-- What can be left of a text after at least one character with `p`, the longest run first. -/
def afterRun1 (p : Char → Bool) (s : Text) : List Text :=
  (afterRun p s).dropLast

def join (sep : Text) : List Text → Text
  | [] => []
  | [s] => s
  | s :: t :: rest => s ++ sep ++ join sep (t :: rest)

/-- The pieces between the characters that satisfy `p`; the characters themselves are left out. -/
def split (p : Char → Bool) : Text → List Text
  | [] => [[]]
  | c :: rest =>
    if p c then [] :: split p rest
    else
      match split p rest with
      | [] => [[c]]
      | piece :: pieces => (c :: piece) :: pieces

/-- The pieces that end after each character that satisfies `p`; concatenated they give the
text. -/
def splitAfter (p : Char → Bool) : Text → List Text
  | [] => []
  | c :: rest =>
    if p c then [c] :: splitAfter p rest
    else
      match splitAfter p rest with
      | [] => [[c]]
      | piece :: pieces => (c :: piece) :: pieces

def words : Text → List Text
  | [] => []
  | c :: rest =>
    if Character.isBlank c then words rest
    else
      match rest, words rest with
      | d :: _, w :: ws => if Character.isBlank d then [c] :: w :: ws else (c :: w) :: ws
      | _, ws => [c] :: ws

def unwrap (s : Text) : Text :=
  join [' '] (words s)

end Text

end DocstringFormat
