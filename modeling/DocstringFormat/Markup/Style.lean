import DocstringFormat.Text.Basic

/-!
Docstring styles: the conventions by which a docstring documents parameters and results.
-/

set_option autoImplicit false

namespace DocstringFormat.Markup

/-- The convention that field lists follow. -/
inductive Style where
  /-- Entries such as `:param x: body`. -/
  | sphinx
  /-- Entries such as `@param x: body`. -/
  | epytext
  | numpy
  /-- Indented sections under a title with a colon. -/
  | google
deriving DecidableEq

namespace Style

def name : Style → Text
  | sphinx => "sphinx".toList
  | epytext => "epytext".toList
  | numpy => "numpy".toList
  | google => "google".toList

def all : List Style :=
  [sphinx, epytext, numpy, google]

def wrapsFields : Style → Bool
  | sphinx | epytext => true
  | numpy | google => false

/-- The style with a name, capital ASCII letters read as small ones. -/
def ofName? (s : Text) : Option Style :=
  all.find? (fun style => style.name == s.map Char.toLower)

end Style

end DocstringFormat.Markup
