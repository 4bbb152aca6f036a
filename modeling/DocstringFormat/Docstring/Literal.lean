import DocstringFormat.Error

/-!
Docstring literals: a triple-quoted string, perhaps raw or marked as Unicode.

A formatted literal has its mark in small letters and three double quotes.
-/

set_option autoImplicit false

namespace DocstringFormat.Docstring

/-- Three double quotes, the way every docstring closes. -/
def tripleDouble : Text := ['"', '"', '"']

def tripleSingle : Text := ['\'', '\'', '\'']

/-- An opening of a docstring literal: an optional mark letter and a triple quote. -/
structure Opening where
  mark : Text
  quote : Text

namespace Opening

def text (o : Opening) : Text :=
  o.mark ++ o.quote

def canonical (o : Opening) : Text :=
  o.mark.map Char.toLower ++ tripleDouble

def all : List Opening :=
  [⟨['r'], tripleDouble⟩, ⟨['R'], tripleDouble⟩, ⟨['r'], tripleSingle⟩, ⟨['R'], tripleSingle⟩,
   ⟨['u'], tripleDouble⟩, ⟨['U'], tripleDouble⟩, ⟨['u'], tripleSingle⟩, ⟨['U'], tripleSingle⟩,
   ⟨[], tripleDouble⟩, ⟨[], tripleSingle⟩]

def inner? (o : Opening) (literal : Text) : Option Text :=
  (Text.after? o.text literal).bind (Text.before? o.quote)

end Opening

def isLiteral (s : Text) : Bool :=
  Opening.all.any (fun o => o.text.isPrefixOf s)

structure Stripped where
  opening : Text
  /-- What the literal holds, without outer blanks. -/
  contents : Text

/-- Takes a literal apart, if it opens and closes with one triple quote. -/
def strip? (literal : Text) : Option Stripped :=
  Opening.all.findSome? fun o =>
    (o.inner? literal.trim).map fun inner => ⟨o.canonical, inner.trim⟩

/-- Takes a literal apart or reports that it is none. -/
def strip (literal : Text) : Except Error Stripped :=
  match strip? literal with
  | some stripped => .ok stripped
  | none => .error (.ofLiteral literal)

end DocstringFormat.Docstring
