import DocstringFormat.Files.Path

/-!
File trees.

A tree holds files and directories by name.  A location is the list of names that leads to a
place from the root; `resolve` finds the location that a written path means.
-/

set_option autoImplicit false

namespace DocstringFormat.Files

inductive Contents where
  | text (s : Text)
  | binary (bytes : List UInt8)
deriving DecidableEq

def Contents.ofBytes (bytes : ByteArray) : Contents :=
  match String.fromUTF8? bytes with
  | some s => .text s.toList
  | none => .binary bytes.toList

inductive Tree where
  | file (contents : Contents)
  | directory (children : List (Text × Tree))

abbrev Location := List Text

def setChild (name : Text) (t : Tree) : List (Text × Tree) → List (Text × Tree)
  | [] => [(name, t)]
  | (n, u) :: rest => if n = name then (n, t) :: rest else (n, u) :: setChild name t rest

namespace Tree

def get? (t : Tree) : Location → Option Tree
  | [] => some t
  | name :: rest =>
    match t with
    | .file _ => none
    | .directory children => (children.lookup name).bind fun child => child.get? rest

/-- Puts something at a location.  Directories on the way are made where they are missing. -/
def insert (t : Tree) (new : Tree) : Location → Tree
  | [] => new
  | name :: rest =>
    match t with
    | .file contents => .file contents
    | .directory children =>
      let child := (children.lookup name).getD (.directory [])
      .directory (setChild name (child.insert new rest) children)

mutual

def pythonFiles (path : Text) : Tree → List Text
  | .file _ => []
  | .directory children =>
    ((pythonFilesOf path children).mergeSort fun a b => nameLe a.1 b.1).flatMap Prod.snd

def pythonFilesOf (path : Text) : List (Text × Tree) → List (Text × List Text)
  | [] => []
  | (name, .file _) :: rest =>
    (name, if isPythonName name then [joinPath path name] else []) :: pythonFilesOf path rest
  | (name, .directory children) :: rest =>
    (name, pythonFiles (joinPath path name) (.directory children)) :: pythonFilesOf path rest

end

mutual

def filesBelow (here : Location) : Tree → List (Location × Contents)
  | .file contents => [(here, contents)]
  | .directory children => filesOf here children

def filesOf (here : Location) : List (Text × Tree) → List (Location × Contents)
  | [] => []
  | (name, child) :: rest => filesBelow (here ++ [name]) child ++ filesOf here rest

end

def files (t : Tree) : List (Location × Contents) :=
  filesBelow [] t

end Tree

/-- Why a path cannot be read as a file. -/
inductive PathError where
  | missing
  | notDirectory
  | isDirectory
  | notText
  | zeroByte
deriving DecidableEq

def PathError.message : PathError → Text
  | missing => "No such file or directory (os error 2)".toList
  | notDirectory => "Not a directory (os error 20)".toList
  | isDirectory => "Is a directory (os error 21)".toList
  | notText => "stream did not contain valid UTF-8".toList
  | zeroByte => "file name contained an unexpected NUL byte".toList

def resolveFrom (root : Tree) (here : Location) : List Text → Except PathError Location
  | [] => .ok here
  | name :: rest =>
    match root.get? here with
    | none => .error .missing
    | some (.file _) => .error .notDirectory
    | some (.directory _) =>
      if name = [] ∨ name = ['.'] then resolveFrom root here rest
      else if name = ['.', '.'] then resolveFrom root here.dropLast rest
      else if (root.get? (here ++ [name])).isNone then .error .missing
      else resolveFrom root (here ++ [name]) rest

def resolve (root : Tree) (cwd : Location) (path : Text) : Except PathError Location :=
  if path.contains '\x00' then .error .zeroByte
  else
    match path with
    | [] => .error .missing
    | '/' :: _ => resolveFrom root [] (components path)
    | _ => resolveFrom root cwd (components path)

def lookup (root : Tree) (cwd : Location) (path : Text) : Option Tree :=
  match resolve root cwd path with
  | .ok location => root.get? location
  | .error _ => none

def isDirectory (root : Tree) (cwd : Location) (path : Text) : Bool :=
  match lookup root cwd path with
  | some (.directory _) => true
  | _ => false

def isFile (root : Tree) (cwd : Location) (path : Text) : Bool :=
  match lookup root cwd path with
  | some (.file _) => true
  | _ => false

def Contents.read : Contents → Except PathError Text
  | .text s => .ok s
  | .binary _ => .error .notText

def readText (root : Tree) (cwd : Location) (path : Text) : Except PathError Text := do
  let location ← resolve root cwd path
  match root.get? location with
  | some (.file contents) => contents.read
  | some (.directory _) => .error .isDirectory
  | none => .error .missing

def writeText (root : Tree) (cwd : Location) (path s : Text) : Except PathError Tree := do
  let location ← resolve root cwd path
  match root.get? location with
  | some (.file _) => .ok (root.insert (.file (.text s)) location)
  | some (.directory _) => .error .isDirectory
  | none => .error .missing

end DocstringFormat.Files
