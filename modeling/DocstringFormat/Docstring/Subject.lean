import DocstringFormat.Text.Basic

/-!
What a docstring documents.
-/

set_option autoImplicit false

namespace DocstringFormat.Docstring

inductive Subject where
  | wholeModule
  | classDef
  | functionDef
  | assignment
deriving DecidableEq

def Subject.name : Subject → Text
  | wholeModule => "module".toList
  | classDef => "class".toList
  | functionDef => "function".toList
  | assignment => "attribute".toList

end DocstringFormat.Docstring
