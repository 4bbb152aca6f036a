import DocstringFormat.Config
import DocstringFormat.Files.Session

/-!
Configuration files: where they are found, and how they are read.
-/

set_option autoImplicit false

namespace DocstringFormat.Files

/-- The nearest configuration file in a directory or in one of those that it lies in. -/
def findConfig? (root : Tree) (cwd : Location) (start : Text) : Option Text :=
  ((ancestors start).map fun dir => joinPath dir configFileName).find? (isFile root cwd)

def loadConfig (root : Tree) (cwd : Location) (path : Text) : Except Error Config :=
  match readText root cwd path with
  | .error cause => .error (.io path cause.message)
  | .ok s => Config.ofText s path

def loadConfigEvents (root : Tree) (cwd : Location) (path : Text) : List Event :=
  match loadConfig root cwd path with
  | .ok _ => [.loadedConfiguration path]
  | .error _ => []

end DocstringFormat.Files
