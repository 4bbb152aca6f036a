import DocstringFormat.Command.Execute

/-!
The program: it reads what a command line speaks of into a session, executes the command line
there, and carries out what the session ends with.
-/

set_option autoImplicit false

namespace DocstringFormat.Main

open Files (Tree Contents Location Session)

/-- The file or directory at a place.  Directories are read with the Python files below them if
`deep` is set. -/
partial def readEntry (deep : Bool) (entry : IO.FS.DirEntry) : IO (Option Tree) := do
  if ← entry.path.isDir then
    if !deep then return some (.directory [])
    let mut children : List (Text × Tree) := []
    for child in ← entry.path.readDir do
      let name := child.fileName.toList
      if (← child.path.isDir) || Files.isPythonName name then
        match ← readEntry deep child with
        | some t => children := (name, t) :: children
        | none => pure ()
    return some (.directory children)
  else if ← entry.path.pathExists then
    return some (.file (Contents.ofBytes (← IO.FS.readBinFile entry.path)))
  else return none

def addEntry (deep : Bool) (root : Tree) (location : Location) : IO Tree := do
  let path := String.ofList (Command.absolutePath location)
  match ← readEntry deep ⟨"/", path⟩ with
  | none => return root
  | some (.directory []) =>
    return if (root.get? location).isSome then root else root.insert (.directory []) location
  | some t => return root.insert t location

def addPath (deep : Bool) (cwd : Location) (root : Tree) (path : Text) : IO Tree := do
  let start := if path.head? == some '/' then [] else cwd
  let mut root := root
  let mut here := start
  for name in Files.components path do
    if name == ['.', '.'] then here := here.dropLast
    else if !name.isEmpty && name != ['.'] then here := here ++ [name]
    root ← addEntry false root here
  if deep then addEntry true root here else return root

/-- All bytes that are left of a stream, after those that were read. -/
partial def readBytes (stream : IO.FS.Stream) (done : ByteArray) : IO ByteArray := do
  let more ← stream.read 65536
  if more.isEmpty then return done else readBytes stream (done ++ more)

def readSession (args : List Text) : IO Session := do
  let here := (← IO.currentDir).toString.toList
  let cwd := (Files.components here).filter (!·.isEmpty)
  let mut root := Tree.directory []
  match Command.parse args with
  | .error _ => return { root := root, cwd := cwd }
  | .ok a =>
    for dir in Files.ancestors (Command.absolutePath cwd) do
      root ← addPath false cwd root (Files.joinPath dir configFileName)
    for path in a.config.toList do
      root ← addPath false cwd root path
    let session : Session := { root := root, cwd := cwd }
    let deep := match Command.config a session with
      | .ok c => (a.runOptions c).recursive
      | .error _ => false
    for path in a.files do
      if path != Files.stdinPath then root ← addPath deep cwd root path
    let bytes ←
      if a.files.contains Files.stdinPath then readBytes (← IO.getStdin) ByteArray.empty
      else pure ByteArray.empty
    return { session with root := root, input := Contents.ofBytes bytes }

def writeChanges (before after : Tree) : IO Unit := do
  for (location, contents) in after.files do
    match contents, before.get? location with
    | .text new, some (.file (.text old)) =>
      if new != old then
        IO.FS.writeFile (String.ofList (Command.absolutePath location)) (String.ofList new)
    | _, _ => pure ()

end DocstringFormat.Main

/-- Runs the program on a command line. -/
def main (args : List String) : IO UInt32 := do
  let args := args.map String.toList
  let session ← DocstringFormat.Main.readSession args
  let (code, after) := (DocstringFormat.Command.execute args).run session
  DocstringFormat.Main.writeChanges session.root after.root
  let output ← IO.getStdout
  output.putStr (String.ofList after.output.text)
  output.flush
  (← IO.getStderr).putStr (String.ofList (DocstringFormat.Command.reports args after))
  return code.toUInt32
