import DocstringFormat.Text.Basic

/-!
Paths as they are written: names with slashes between them.
-/

set_option autoImplicit false

namespace DocstringFormat.Files

/-- The parts of a path between its slashes, empty ones included. -/
def components (path : Text) : List Text :=
  path.split (· == '/')

def joinPath (path name : Text) : Text :=
  match path.getLast? with
  | none => name
  | some '/' => path ++ name
  | some _ => path ++ ['/'] ++ name

def dropIdleEnd : Nat → Text → Text
  | 0, path => path
  | steps + 1, path =>
    match path.reverse with
    | '/' :: _ :: _ => dropIdleEnd steps path.dropLast
    | '.' :: '/' :: _ => dropIdleEnd steps path.dropLast
    | _ => path

/-- The directory that a path lies in; the empty path and the root lie in none. -/
def parent? (path : Text) : Option Text :=
  let tidy := dropIdleEnd path.length path
  if tidy.isEmpty || tidy == ['/'] then none
  else
    let before := tidy.dropEndWhile (· != '/')
    some (dropIdleEnd before.length before)

/-- A path and the directories that it lies in, nearest first, at most `steps` of them. -/
def ancestorsUpTo : Nat → Text → List Text
  | 0, path => [path]
  | steps + 1, path =>
    match parent? path with
    | none => [path]
    | some p => path :: ancestorsUpTo steps p

def ancestors (path : Text) : List Text :=
  ancestorsUpTo path.length path

/-- Whether a file name has the extension `py`.  A dot at the very start begins no extension. -/
def isPythonName (name : Text) : Bool :=
  match Text.before? ['.', 'p', 'y'] name with
  | none => false
  | some stem => !stem.isEmpty

def isExcluded (exclude : List Text) (path : Text) : Bool :=
  exclude.any (fun fragment => Text.includes fragment path)

def nameLe : Text → Text → Bool
  | [], _ => true
  | _ :: _, [] => false
  | a :: s, b :: t => a < b || (a == b && nameLe s t)

end DocstringFormat.Files
